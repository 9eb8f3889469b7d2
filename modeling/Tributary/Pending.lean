/-!
# Placeholder identities

Until the first successful push reports a real identity, a record carries `pending-`
followed by the name of its first contributor.
-/

namespace Tributary.Pending

def tag : List Char := "pending-".toList

def placeholder (name : String) : String := "pending-" ++ name

/-- The tag, followed by at least one character. -/
def isPlaceholder (id : String) : Bool :=
  tag.isPrefixOf id.toList && tag.length < id.toList.length

@[simp] theorem isPlaceholder_placeholder (name : String) :
    isPlaceholder (placeholder name) = decide (name ≠ "") := by
  have h : (placeholder name).toList = tag ++ name.toList := String.toList_append
  rw [isPlaceholder, h, List.isPrefixOf_iff_prefix.2 (List.prefix_append _ _),
    Bool.true_and, List.length_append]
  by_cases hn : name = ""
  · simp [hn]
  · have : name.toList.length ≠ 0 := by
      simpa using hn
    simp only [ne_eq, hn, not_false_eq_true, decide_true, decide_eq_true_eq]
    omega

end Tributary.Pending
