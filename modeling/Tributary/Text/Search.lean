/-!
# Finding a phrase in a text

`cut?` splits a text at the first place where a phrase stands; `occurs` says whether
there is one.
-/

namespace Tributary.Text

/-- What stands before and after the first occurrence of `phrase`. -/
def cut? (phrase : List Char) : List Char → Option (List Char × List Char)
  | [] => if phrase = [] then some ([], []) else none
  | c :: rest =>
    if phrase.isPrefixOf (c :: rest) then some ([], (c :: rest).drop phrase.length)
    else (cut? phrase rest).map fun (before, after) => (c :: before, after)

def occurs (phrase text : List Char) : Bool := (cut? phrase text).isSome

/-- A text is what stands before its first occurrence of a phrase, the phrase, and the rest. -/
theorem eq_of_cut? {phrase text before after : List Char}
    (h : cut? phrase text = some (before, after)) : text = before ++ phrase ++ after := by
  induction text generalizing before with
  | nil =>
    simp only [cut?] at h
    split at h <;> simp_all
  | cons c rest ih =>
    simp only [cut?] at h
    split at h
    · next hp =>
      obtain ⟨t, ht⟩ := List.isPrefixOf_iff_prefix.1 hp
      simp only [Option.some.injEq, Prod.mk.injEq] at h
      obtain ⟨rfl, rfl⟩ := h
      rw [← ht]; simp
    · simp only [Option.map_eq_some_iff, Prod.exists, Prod.mk.injEq] at h
      obtain ⟨b, a, hc, rfl, rfl⟩ := h
      simpa using ih hc

end Tributary.Text
