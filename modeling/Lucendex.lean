import Lucendex.Go.Strconv
import Lucendex.Store.Basic
import Lucendex.Store.Ops
import Lucendex.Store.Invariant
import Lucendex.Store.Isolation
import Lucendex.Store.RateLimit
import Lucendex.Store.Eviction
import Lucendex.Store.Liveness
import Lucendex.Store.Quota
import Lucendex.Store.Counter
import Lucendex.Decimal.Basic
import Lucendex.Decimal.Semantics
import Lucendex.Router.Types
import Lucendex.Router.Breaker
import Lucendex.Router.BreakerTransitions
import Lucendex.Router.BreakerInvariant
import Lucendex.Router.Caution
import Lucendex.Decimal.Parse
import Lucendex.Decimal.RoundTrip
import Lucendex.Router.Validator
import Lucendex.Router.Pathfinder
import Lucendex.Router.Routes
import Lucendex.Router.Predecessors
import Lucendex.Router.DijkstraRun
import Lucendex.Router.AMM
import Lucendex.Router.Hash
import Lucendex.Router.Quote
import Lucendex.Router.QuoteIsolation
import Lucendex.Api.Handlers
import Lucendex.Api.Assets
import Lucendex.Api.Auth
import Lucendex.Api.RateLimit
import Lucendex.Api.Usage
import Lucendex.Indexer.Attribution
import Lucendex.Indexer.Ledger
import Lucendex.Indexer.Backfill
import Lucendex.Indexer.Memo
