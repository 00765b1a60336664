import Lucendex.Api.Handlers

/-!
# The asset strings the API accepts

The handler reads each asset of a request with `parseAsset`, and the router's validator checks it
with `ValidateAsset`.  What passes is the native asset `XRP` with no issuer, or a currency of
three to forty characters of `[A-Z0-9]` other than `XRP`, with a non-empty issuer that matches
the address pattern once `strings.TrimSpace` has removed white space at both ends
(`validateAsset_ok`).  The trimmed string is only matched, never stored: the asset keeps the
issuer it was given, and its `String()`, which the breaker's pair key, the `SameAssets` check and
the quote hash use, keeps the white space.

`parseAsset` keeps the text before the first dot and the text between the first and the second
dot; `strings.Split` drops the rest.  So `parseAsset(s).String()` is `s` up to its second dot, or
`s` up to its first dot when nothing stands between the two or no issuer follows
(`parseAsset_toString_prefix`), and a request for `USD.r...x` is a request for `USD.r...`.
-/

namespace Lucendex.Api

open Lucendex.Router

/-! ### What `ValidateAsset` accepts -/

/-- `ValidateAsset` accepts `XRP` without an issuer, and an asset with a currency other than `XRP`
that matches `[A-Z0-9]{3,40}` and a non-empty issuer that matches the address pattern once
trimmed; nothing else. -/
theorem validateAsset_ok {a : Asset} :
  validateAsset a = .ok () ↔ a = ⟨"XRP", ""⟩ ∨
    (a.currency ≠ "XRP" ∧ currencyMatches a.currency = true ∧ a.issuer ≠ "" ∧
      xrplAddressMatches (trimSpace a.issuer) = true)
  := by
  obtain ⟨currency, issuer⟩ := a
  unfold validateAsset
  by_cases hc : currency = "XRP"
  · subst hc
    by_cases hi : issuer = "" <;> simp [hi]
  · by_cases he : currency = ""
    · subst he
      simp [currencyMatches]
    · simp only [he, hc, if_false, Asset.mk.injEq, false_and, false_or, ne_eq, not_false_eq_true,
        true_and, isValidXRPLAddress]
      by_cases hm : currencyMatches currency <;> by_cases hi : issuer = "" <;>
        by_cases hx : xrplAddressMatches (trimSpace issuer) <;> simp [hm, hi, hx]

/-! ### What `parseAsset` keeps -/

/-- The text after the first piece of a string split at dots: nothing, or a dot and the rest. -/
theorem intercalate_dot_cons (i : List Char) (rest : List (List Char)) :
  ∃ u, ['.'].intercalate (i :: rest) = i ++ u ∧ (u = [] ∨ ∃ w, u = '.' :: w)
  := by
  cases rest with
  | nil => exact ⟨[], by simp [List.intercalate], .inl rfl⟩
  | cons r rs =>
    exact ⟨'.' :: ['.'].intercalate (r :: rs), by simp [List.intercalate, List.intersperse_cons_cons],
      .inr ⟨_, rfl⟩⟩

/-- For every string `s`, `parseAsset(s).String()` is the beginning of `s`, and what follows it,
if anything, starts with a dot. -/
theorem parseAsset_toString_prefix (s : String) :
  ∃ t : String, s = (parseAsset s).toString ++ t ∧ (t = "" ∨ ∃ u, t = "." ++ u)
  := by
  obtain ⟨cs⟩ := s
  have hs : ['.'].intercalate (cs.splitOn '.') = cs := List.intercalate_splitOn cs '.'
  simp only [parseAsset]
  generalize cs.splitOn '.' = parts at hs ⊢
  rcases parts with _ | ⟨c, _ | ⟨i, rest⟩⟩
  · exact ⟨"", by simp [← hs, Asset.toString, List.intercalate], .inl rfl⟩
  · exact ⟨"", by simp [← hs, Asset.toString, List.intercalate], .inl rfl⟩
  · obtain ⟨u, hu, hu'⟩ := intercalate_dot_cons i rest
    have hcs : cs = c ++ '.' :: (i ++ u) := by
      rw [← hs, ← hu]
      simp [List.intercalate, List.intersperse_cons_cons]
    subst hcs
    by_cases hi : i = []
    · subst hi
      refine ⟨String.mk ('.' :: u), ?_, .inr ⟨String.mk u, rfl⟩⟩
      simp [Asset.toString, String.ext_iff]
    · refine ⟨String.mk u, ?_, ?_⟩
      · have hne : String.mk i ≠ "" := fun h => hi (congrArg String.data h)
        simp [Asset.toString, hne, String.ext_iff]
      · rcases hu' with rfl | ⟨w, rfl⟩
        exacts [.inl rfl, .inr ⟨String.mk w, rfl⟩]

/-! ### The canonical strings, up to the issuer's white space -/

/-- `USD` with the issuer ` rvYAfWj5gh67oV6fW32ZzP3Aw4Eubs59B`, after a blank, passes
`ValidateAsset`; its `String()` keeps the blank, and the issuer itself does not match the
address pattern.  And the string `USD.rvYAfWj5gh67oV6fW32ZzP3Aw4Eubs59B.x` is accepted as the
asset whose `String()` leaves out `.x`. -/
theorem accepted_asset_not_canonical :
  validateAsset ⟨"USD", " rvYAfWj5gh67oV6fW32ZzP3Aw4Eubs59B"⟩ = .ok () ∧
    Asset.toString ⟨"USD", " rvYAfWj5gh67oV6fW32ZzP3Aw4Eubs59B"⟩ =
      "USD. rvYAfWj5gh67oV6fW32ZzP3Aw4Eubs59B" ∧
    xrplAddressMatches " rvYAfWj5gh67oV6fW32ZzP3Aw4Eubs59B" = false ∧
    validateAsset (parseAsset "USD.rvYAfWj5gh67oV6fW32ZzP3Aw4Eubs59B.x") = .ok () ∧
    (parseAsset "USD.rvYAfWj5gh67oV6fW32ZzP3Aw4Eubs59B.x").toString =
      "USD.rvYAfWj5gh67oV6fW32ZzP3Aw4Eubs59B"
  := by decide

/-- Every asset `ValidateAsset` accepts is `XRP`, whose `String()` is `XRP`, or has the `String()`
`CUR.ISS` of a currency `CUR` that matches `[A-Z0-9]{3,40}` and a non-empty issuer `ISS` that
matches the address pattern once white space is trimmed at both ends.  And for every string `s`,
`s` is `parseAsset(s).String()` followed by nothing or by a dot and more. -/
theorem accepted_asset_string :
  (∀ a : Asset, validateAsset a = .ok () →
    (a = ⟨"XRP", ""⟩ ∧ a.toString = "XRP") ∨
    (a.toString = a.currency ++ "." ++ a.issuer ∧ currencyMatches a.currency = true ∧
      a.issuer ≠ "" ∧ xrplAddressMatches (trimSpace a.issuer) = true)) ∧
  ∀ s : String, ∃ t : String, s = (parseAsset s).toString ++ t ∧ (t = "" ∨ ∃ u, t = "." ++ u)
  := by
  refine ⟨fun a h => (validateAsset_ok.mp h).imp (fun ha => ⟨ha, by rw [ha]; rfl⟩) ?_,
    parseAsset_toString_prefix⟩
  rintro ⟨-, hc, hi, hx⟩
  exact ⟨by simp [Asset.toString, hi], hc, hi, hx⟩

/-- The asset `USD.rvYAfWj5gh67oV6fW32ZzP3Aw4Eubs59B` is accepted, with its `String()`. -/
theorem accepted_asset_string_usd :
  validateAsset ⟨"USD", "rvYAfWj5gh67oV6fW32ZzP3Aw4Eubs59B"⟩ = .ok () ∧
    ((Asset.mk "USD" "rvYAfWj5gh67oV6fW32ZzP3Aw4Eubs59B" = ⟨"XRP", ""⟩ ∧
        Asset.toString ⟨"USD", "rvYAfWj5gh67oV6fW32ZzP3Aw4Eubs59B"⟩ = "XRP") ∨
      (Asset.toString ⟨"USD", "rvYAfWj5gh67oV6fW32ZzP3Aw4Eubs59B"⟩ =
          "USD" ++ "." ++ "rvYAfWj5gh67oV6fW32ZzP3Aw4Eubs59B" ∧
        currencyMatches "USD" = true ∧ "rvYAfWj5gh67oV6fW32ZzP3Aw4Eubs59B" ≠ "" ∧
        xrplAddressMatches (trimSpace "rvYAfWj5gh67oV6fW32ZzP3Aw4Eubs59B") = true))
  := ⟨by decide, accepted_asset_string.1 _ (by decide)⟩

end Lucendex.Api
