import Mathlib.Algebra.GroupWithZero.Nat
import Mathlib.Algebra.BigOperators.Group.List.Basic

/-!
# Histograms for OTLP

`cumulative_buckets_to_explicit` of `otel.rs`: a bucket of Prometheus counts all samples up to its
bound, one of OTel those over the bound before it, with one more bucket over the last bound.

- `explicit_preserves_counts`: no sample is lost or moved.
-/

namespace Conduit

/-- `prometheus::proto::Bucket`, with the bits of the bound. -/
structure HistogramBucket where
  upperBound : BitVec 64
  cumulativeCount : Nat

/-- `f64::is_finite`: the exponent is not all ones. -/
def HistogramBucket.isFinite (b : HistogramBucket) : Bool :=
  b.upperBound.extractLsb' 52 11 != BitVec.allOnes 11

/-- The loop over the cumulative counts, and the last `push`. A `saturating_sub` is the subtraction
of `Nat`. -/
def bucketCounts (sampleCount : Nat) : Nat → List Nat → List Nat
  | prev, [] => [sampleCount - prev]
  | prev, cum :: cumulatives => (cum - prev) :: bucketCounts sampleCount cum cumulatives

def cumulativeBucketsToExplicit (buckets : List HistogramBucket) (sampleCount : Nat) :
    List (BitVec 64) × List Nat :=
  let finite := buckets.filter (·.isFinite)
  (finite.map (·.upperBound), bucketCounts sampleCount 0 (finite.map (·.cumulativeCount)))

variable {sampleCount prev : Nat} {cumulatives : List Nat}

theorem length_bucketCounts :
    (bucketCounts sampleCount prev cumulatives).length = cumulatives.length + 1 := by
  induction cumulatives generalizing prev with
  | nil => rfl
  | cons cum cumulatives ih => simp [bucketCounts, ih]

/-- The counts so far and `prev` are the cumulative count; the sample count comes last. -/
theorem sum_take_bucketCounts {i c : Nat}
    (hmono : (prev :: cumulatives ++ [sampleCount]).Pairwise (· ≤ ·))
    (hc : (cumulatives ++ [sampleCount])[i]? = some c) :
    prev + ((bucketCounts sampleCount prev cumulatives).take (i + 1)).sum = c := by
  induction cumulatives generalizing prev i with
  | nil =>
    have hle : prev ≤ sampleCount := by simpa using hmono
    cases i with
    | zero => simp_all [bucketCounts]
    | succ i => simp at hc
  | cons cum cumulatives ih =>
    obtain ⟨hprev, hmono⟩ := List.pairwise_cons.mp hmono
    have hle : prev ≤ cum := hprev cum (by simp)
    rw [bucketCounts, List.take_succ_cons, List.sum_cons, ← Nat.add_assoc, Nat.add_sub_cancel' hle]
    cases i with
    | zero => simpa using hc
    | succ i => exact ih hmono hc

theorem explicit_preserves_counts {buckets : List HistogramBucket}
    (hmono : buckets.Pairwise (·.cumulativeCount ≤ ·.cumulativeCount))
    (hle : ∀ b ∈ buckets, b.cumulativeCount ≤ sampleCount) :
    let (bounds, counts) := cumulativeBucketsToExplicit buckets sampleCount
    counts.length = bounds.length + 1 ∧ counts.sum = sampleCount ∧
      ∀ i b, (buckets.filter (·.isFinite))[i]? = some b →
        (counts.take (i + 1)).sum = b.cumulativeCount := by
  have hall : (0 :: (buckets.filter (·.isFinite)).map (·.cumulativeCount) ++
      [sampleCount]).Pairwise (· ≤ ·) := by
    refine List.pairwise_cons.mpr ⟨fun c _ => Nat.zero_le c, ?_⟩
    refine List.pairwise_append.mpr ⟨?_, List.pairwise_singleton .., ?_⟩
    · exact List.pairwise_map.mpr (hmono.sublist List.filter_sublist)
    · intro c hc n hn
      obtain ⟨b, hb, rfl⟩ := List.mem_map.mp hc
      rw [List.mem_singleton.mp hn]
      exact hle b (List.mem_of_mem_filter hb)
  refine ⟨by simp [length_bucketCounts], ?_, fun i b hb => ?_⟩
  · -- all counts are those up to the sample count
    have hsum := sum_take_bucketCounts hall List.getElem?_concat_length
    rwa [← length_bucketCounts, List.take_length, Nat.zero_add] at hsum
  · have hc : ((buckets.filter (·.isFinite)).map (·.cumulativeCount))[i]? =
        some b.cumulativeCount := by
      rw [List.getElem?_map, hb, Option.map_some]
    rw [← Nat.zero_add (List.sum _)]
    refine sum_take_bucketCounts hall ?_
    rw [List.getElem?_append_left (List.getElem?_eq_some_iff.mp hc).1]
    exact hc

/-- Bounds 1, ∞, 2 and ∞. -/
def sampleBuckets : List HistogramBucket :=
  [⟨0x3ff0000000000000, 2⟩, ⟨0x7ff0000000000000, 3⟩, ⟨0x4000000000000000, 5⟩,
    ⟨0x7ff0000000000000, 9⟩]

theorem explicit_preserves_counts_sample :
    (cumulativeBucketsToExplicit sampleBuckets 10).2 = [2, 3, 5] ∧
      (cumulativeBucketsToExplicit sampleBuckets 10).2.sum = 10 :=
  ⟨by decide, (explicit_preserves_counts (by decide) (by decide)).2.1⟩

end Conduit
