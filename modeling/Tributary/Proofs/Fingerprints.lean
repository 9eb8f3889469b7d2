import Tributary.Json.Fingerprint
import Tributary.Proofs.Spelling

/-!
# Fingerprints tell values apart

Two values have one canonical text exactly if they are the same up to the order of members, so
that, unless their two texts collide under the digest, the fingerprint tells whether they are,
and a configuration that has changed is never taken for the one that was pushed before
(`fingerprints_apart`). Repeated keys count with their last value; where no key is repeated, any
order of the members makes the same object (`alike_of_perm`).
-/

namespace Tributary

namespace Table

variable {α : Type}

theorem look_append_of_not_mem {key : String} {pairs rest : List (String × α)}
    (h : key ∉ pairs.map (·.1)) : look key (pairs ++ rest) = look key rest := by
  induction pairs with
  | nil => rfl
  | cons p pairs ih =>
    rw [List.map_cons, List.mem_cons, not_or] at h
    rw [List.cons_append, look, if_neg h.1, ih h.2]

theorem look_eq_some_iff {key : String} {value : α} {pairs : List (String × α)}
    (nodup : (pairs.map (·.1)).Nodup) : look key pairs = some value ↔ (key, value) ∈ pairs := by
  constructor
  · exact mem_of_get? (t := ⟨pairs⟩)
  · intro mem
    obtain ⟨before, after, rfl⟩ := List.append_of_mem mem
    rw [List.map_append, List.map_cons, List.nodup_append] at nodup
    have missing : key ∉ before.map (·.1) := fun mem =>
      nodup.2.2 key mem key List.mem_cons_self rfl
    rw [look_append_of_not_mem missing, look, if_pos rfl]

/-- Where no key is repeated, the table has the pairs that were given. -/
theorem get?_ofList {pairs : List (String × α)} (nodup : (pairs.map (·.1)).Nodup)
    (key : String) : (ofList pairs).get? key = look key pairs := by
  have onward (pairs : List (String × α)) (nodup : (pairs.map (·.1)).Nodup) (t : Table α) :
      (pairs.foldl (fun t p => t.set p.1 p.2) t).get? key =
        (look key pairs).or (t.get? key) := by
    induction pairs generalizing t with
    | nil => rfl
    | cons p rest ih =>
      obtain ⟨missing, nodup⟩ := List.nodup_cons.1 nodup
      rw [List.foldl_cons, ih nodup, get?_set, look]
      by_cases here : key = p.1
      · subst here
        have none : look p.1 rest = none := get?_eq_none_of_not_mem (t := ⟨rest⟩) missing
        simp [none]
      · simp [here]
  rw [ofList, onward pairs nodup empty, get?_empty, Option.or_none]

end Table

namespace Json

theorem Alike.refl (v : Json) : Alike v v := canonical_eq_canonical.1 rfl

/-- The order of the members makes no difference. -/
theorem alike_of_perm {ms ns : List (String × Json)} (order : ms.Perm ns)
    (nodup : (ms.map (·.1)).Nodup) : Alike (.obj ms) (.obj ns) := by
  refine .obj fun key => ?_
  have nodup' : (ns.map (·.1)).Nodup := (order.map _).nodup_iff.1 nodup
  have same : (obj ms).get? key = (obj ns).get? key := by
    rw [get?, get?, Table.get?_ofList nodup, Table.get?_ofList nodup']
    apply Option.ext
    intro value
    rw [Table.look_eq_some_iff nodup, Table.look_eq_some_iff nodup']
    exact order.mem_iff
  rw [same]
  cases (obj ns).get? key with
  | none => exact .none
  | some value => exact .some (.refl value)

/-- Canonical texts tell values up to the order of members. So do fingerprints, for two values
whose texts do not collide: a configuration counts as unchanged exactly if it is the same. -/
theorem fingerprints_apart (v w : Json) :
    (v.canonical = w.canonical ↔ Alike v w) ∧
    ((Sha256.hex v.canonical = Sha256.hex w.canonical → v.canonical = w.canonical) →
      (v.fingerprint = w.fingerprint ↔ Alike v w) ∧
      (fingerprintChanged v.fingerprint w.fingerprint = false ↔ Alike v w)) := by
  refine ⟨canonical_eq_canonical, fun apart => ?_⟩
  have told : v.fingerprint = w.fingerprint ↔ Alike v w := by
    constructor
    · exact fun same => canonical_eq_canonical.1 (apart same)
    · exact fun alike => congrArg Sha256.hex alike.canonical_eq
  refine ⟨told, ?_⟩
  rw [fingerprintChanged_eq_false]
  exact ⟨fun h => told.1 h.2, fun h => ⟨v.fingerprint_ne_empty, told.2 h⟩⟩

/-- An object in two orders, and an array in two orders. -/
def settings : Json :=
  .obj [("b", .int 1), ("a", .obj [("y", .arr [.int 1, .int 2]), ("x", .str "s")])]

def settingsReordered : Json :=
  .obj [("a", .obj [("x", .str "s"), ("y", .arr [.int 1, .int 2])]), ("b", .int 1)]

def countdown : Json := .arr [.int 2, .int 1]

def countup : Json := .arr [.int 1, .int 2]

theorem settings_unchanged :
    (Alike settings settingsReordered ∧
      fingerprintChanged settings.fingerprint settingsReordered.fingerprint = false) ∧
    (Sha256.hex countup.canonical ≠ Sha256.hex countdown.canonical ∧
      ¬ Alike countup countdown ∧
      fingerprintChanged countup.fingerprint countdown.fingerprint = true) := by
  have same : settings.canonical = settingsReordered.canonical := by decide +kernel
  have other : Sha256.hex countup.canonical ≠ Sha256.hex countdown.canonical := by decide +kernel
  obtain ⟨texts, settled⟩ := fingerprints_apart settings settingsReordered
  obtain ⟨-, unsettled⟩ := fingerprints_apart countup countdown
  have alike := texts.1 same
  have differ := unsettled fun collision => absurd collision other
  have not_alike : ¬ Alike countup countdown := fun h => other (differ.1.2 h)
  exact ⟨⟨alike, (settled fun _ => same).2.2 alike⟩, other, not_alike, by
    rw [← Bool.not_eq_false]
    exact fun unchanged => not_alike (differ.2.1 unchanged)⟩

end Json

end Tributary
