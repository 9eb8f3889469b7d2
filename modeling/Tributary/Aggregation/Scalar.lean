import Tributary.Aggregation.Basic

/-!
# One merged value

Folds the configurations, in order of precedence, into an initial value.
-/

namespace Tributary

structure ScalarAggregator (τ : Type) where
  read : List UInt8 → Option τ
  initial : τ
  /-- What has been merged, the next configuration, its owner and its priority. -/
  merge : τ → τ → Owner → Int → τ
  /-- Applied once to the merged value. -/
  finalize : τ → τ := id

structure ScalarResult (τ : Type) where
  value : τ
  owners : List Owner

namespace ScalarAggregator

def aggregate (a : ScalarAggregator τ) (sources : List Contribution) : ScalarResult τ :=
  let read := Aggregation.decoded a.read sources
  { value := a.finalize <|
      read.foldl (fun v (source, config) => a.merge v config source.owner source.priority) a.initial
    owners := read.map (·.1.owner) }

end ScalarAggregator

def ScalarResult.aggregation (r : ScalarResult τ) (toJson : τ → Json) : Aggregation :=
  ⟨(toJson r.value).sorted, r.owners.length, r.owners⟩

end Tributary
