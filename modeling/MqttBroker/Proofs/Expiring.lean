import MqttBroker.Duration
import MqttBroker.Proofs.DurableReader
import MqttBroker.Proofs.Success

/-!
What a sweep takes out of a bucket. Up to the greatest signed word an age limit is taken as it is
written, and a sweep takes out what is older and nothing else. A greater one turns into a negative
number: the limit then lies ahead of the clock, or cannot be computed and stops the deleter.
-/

namespace MqttBroker

theorem Text.sumParts_lt {weight : Char → Option Nat} {parts : List (List Char × Char)}
    {acc n : Nat} (start : acc < Word.bound) (done : sumParts weight acc parts = .ok n) :
    n < Word.bound := by
  induction parts generalizing acc with
  | nil =>
      cases done
      exact start
  | cons part rest ih =>
      simp only [sumParts, bind_eq_ok] at done
      obtain ⟨value, _, sum, added, done⟩ := done
      refine ih ?_ done
      unfold Word.add at added
      split at added
      · cases added
        assumption
      · cases added

theorem Duration.read_lt {text : String} {n : Nat} (done : Duration.read text = .ok n) :
    n < Word.bound :=
  Text.sumParts_lt (by decide) done

namespace SignedWord

theorem inRange_iff {n : Int} : inRange n = true ↔ low ≤ n ∧ n ≤ high := by
  simp [inRange]

theorem wrap_fits {n : Nat} (fits : (n : Int) ≤ high) : wrap n = n := by
  refine wrap_inRange (inRange_iff.mpr ⟨?_, fits⟩)
  simp only [low]
  omega

theorem wrap_exceeds {n : Nat} (exceeds : high < (n : Int)) (word : n < Word.bound) :
    wrap n = n - Word.bound := by
  simp only [high, Word.bound] at exceeds word
  rw [wrap, Int.bmod_def]
  simp only [Word.bound]
  omega

end SignedWord

def Record.Expired (r : Record) (clock : Int) (expiry : Nat) : Prop :=
  0 < expiry ∧ r.time.toInt < clock - expiry

instance (r : Record) (clock : Int) (expiry : Nat) : Decidable (r.Expired clock expiry) :=
  inferInstanceAs (Decidable (_ ∧ _))

namespace Bucket

def fresh (b : Bucket) (clock : Int) (expiry : Nat) : Bucket :=
  { b with records := b.records.filter fun r => ¬r.Expired clock expiry }

variable {b : Bucket} {clock : Int} {r : Record}

theorem mem_fresh {expiry : Nat} :
    r ∈ (b.fresh clock expiry).records ↔ r ∈ b.records ∧ ¬r.Expired clock expiry := by
  rw [fresh, List.mem_filter, decide_eq_true_eq]

theorem fresh_zero (b : Bucket) (clock : Int) : b.fresh clock 0 = b := by
  have all : b.records.filter (fun r => ¬r.Expired clock 0) = b.records := by
    refine List.filter_eq_self.mpr fun r _ => decide_eq_true ?_
    exact fun expired => absurd expired.1 (Nat.lt_irrefl 0)
  rw [fresh, all]

theorem fresh_longer {shorter longer : Nat} (limited : 0 < shorter) (more : shorter ≤ longer)
    (kept : r ∈ (b.fresh clock shorter).records) : r ∈ (b.fresh clock longer).records := by
  obtain ⟨member, young⟩ := mem_fresh.mp kept
  refine mem_fresh.mpr ⟨member, fun expired => young ⟨limited, ?_⟩⟩
  have older := expired.2
  omega

theorem deleteBefore_fresh {expiry : Nat} {limit : Int64} (limited : 0 < expiry)
    (exact : limit.toInt = clock - expiry) : (b.deleteBefore limit).1 = b.fresh clock expiry := by
  have same : ∀ r : Record, (!decide (r.time < limit)) = decide ¬r.Expired clock expiry := by
    intro r
    rw [← decide_not, decide_eq_decide, Int64.lt_iff_toInt_lt, exact]
    exact not_congr (and_iff_right limited).symm
  simp only [deleteBefore, delete, fresh, same]

end Bucket

namespace DurableQueue

open SignedWord

variable {τ : Type} {q : DurableQueue τ} {time : Int64} {expiry : Nat}

theorem expiryLimit_fits (clock : 0 ≤ time.toInt) (fits : (expiry : Int) ≤ high) :
    expiryLimit expiry time =
      .ok (if expiry = 0 then none else some (time.toInt - expiry)) := by
  have last := time.toInt_lt
  have within : inRange (time.toInt - expiry) = true := by
    rw [inRange_iff]
    simp only [low, high] at fits ⊢
    omega
  rw [expiryLimit, wrap_fits fits, SignedWord.sub, if_pos within]
  split <;> rfl

theorem expiryLimit_exceeds (clock : 0 ≤ time.toInt) (exceeds : high < (expiry : Int))
    (word : expiry < Word.bound) :
    expiryLimit expiry time =
      if time.toInt + (Word.bound - expiry) ≤ high
      then .ok (some (time.toInt + (Word.bound - expiry))) else .error .subtract := by
  have limited : expiry ≠ 0 := by
    rintro rfl
    cases exceeds
  have ahead : time.toInt - (expiry - Word.bound) = time.toInt + (Word.bound - expiry) := by omega
  have within : inRange (time.toInt + (Word.bound - expiry)) = true ↔
      time.toInt + (Word.bound - expiry) ≤ high := by
    rw [inRange_iff, and_iff_right]
    simp only [low]
    omega
  rw [expiryLimit, if_neg limited, wrap_exceeds exceeds word, SignedWord.sub, ahead]
  simp only [within]
  split <;> rfl

theorem sweep_fits (clock : 0 ≤ time.toInt) (fits : (q.options.messageExpiry : Int) ≤ high)
    (b : Bucket) (now : Nat) (fails : Bool) : q.sweep b now time fails =
      ({ q with sweepTimer := q.nextSweep now },
        if fails then b else b.fresh time.toInt q.options.messageExpiry) := by
  have computed := expiryLimit_fits clock fits
  by_cases endless : q.options.messageExpiry = 0
  · rw [if_pos endless] at computed
    simp only [sweep, computed]
    rw [endless, Bucket.fresh_zero, ite_self]
  · have last := time.toInt_lt
    have exact : (Int64.ofInt (time.toInt - q.options.messageExpiry)).toInt =
        time.toInt - q.options.messageExpiry := by
      simp only [high] at fits
      exact Int64.toInt_ofInt_of_le (by omega) (by omega)
    rw [if_neg endless] at computed
    simp only [sweep, computed, Bucket.deleteBefore_fresh (Nat.pos_of_ne_zero endless) exact]
    split <;> rfl

/-- No record stays but those from after the time of the sweep, or the deleter stops. -/
theorem sweep_exceeds (clock : 0 ≤ time.toInt) (exceeds : high < (q.options.messageExpiry : Int))
    (word : q.options.messageExpiry < Word.bound) (b : Bucket) (now : Nat) :
    if time.toInt + (Word.bound - q.options.messageExpiry) ≤ high
    then ∀ r ∈ (q.sweep b now time false).2.records, time < r.time
    else ∀ fails, q.sweep b now time fails =
      ({ q with sweepTimer := q.nextSweep now, deleting := false }, b) := by
  have computed := expiryLimit_exceeds clock exceeds word
  split
  · rename_i within
    rw [if_pos within] at computed
    intro r member
    simp only [sweep, computed, Bool.false_eq_true, if_false] at member
    have late := (Bucket.mem_deleteBefore.mp member).2
    simp only [high] at within
    rw [Int64.lt_iff_toInt_lt, Int64.toInt_ofInt_of_le (by omega) (by omega)] at late
    rw [Int64.lt_iff_toInt_lt]
    omega
  · rename_i beyond
    rw [if_neg beyond] at computed
    intro fails
    simp only [sweep, computed]

def single (time : Int64) : Bucket := { name := "", records := [⟨1, time, []⟩], next := 2 }

theorem sweep_fresh_iff (clock : 0 ≤ time.toInt) (word : q.options.messageExpiry < Word.bound)
    (running : q.deleting = true) (now : Nat) :
    (∀ b, q.sweep b now time false = ({ q with sweepTimer := q.nextSweep now },
      b.fresh time.toInt q.options.messageExpiry)) ↔ (q.options.messageExpiry : Int) ≤ high := by
  constructor
  · intro fresh
    refine Int.not_lt.mp fun exceeds => ?_
    have instead := sweep_exceeds clock exceeds word (single time) now
    split at instead
    · -- a record of this very moment has not expired
      have kept : (⟨1, time, []⟩ : Record) ∈
          ((single time).fresh time.toInt q.options.messageExpiry).records := by
        refine Bucket.mem_fresh.mpr ⟨List.mem_singleton_self _, fun expired => ?_⟩
        have older : time.toInt < time.toInt - q.options.messageExpiry := expired.2
        omega
      rw [fresh] at instead
      exact absurd (Int64.lt_iff_toInt_lt.mp (instead _ kept)) (Int.lt_irrefl _)
    · have stopped := congrArg (fun after => after.1.deleting)
        ((fresh (single time)).symm.trans (instead false))
      rw [running] at stopped
      cases stopped
  · intro fits b
    exact sweep_fits clock fits b now false

/-- With an age limit that is a signed word a sweep takes out what is older and nothing else. If the
limit is zero that is nothing at all, and a longer one leaves what a shorter one leaves. With a
greater one it takes out everything up to the present, or stops the deleter where the time is too
far ahead. So a sweep does what it should for no limit but signed words. -/
theorem sweep_expires (clock : 0 ≤ time.toInt) (word : q.options.messageExpiry < Word.bound)
    (now : Nat) :
    let expiry := q.options.messageExpiry
    ((expiry : Int) ≤ high →
      expiryLimit expiry time = .ok (if expiry = 0 then none else some (time.toInt - expiry)) ∧
      ∀ b fails, q.sweep b now time fails =
        ({ q with sweepTimer := q.nextSweep now },
          if fails then b else b.fresh time.toInt expiry)) ∧
    (∀ b : Bucket, (expiry = 0 → b.fresh time.toInt expiry = b) ∧
      ∀ shorter, 0 < shorter → shorter ≤ expiry →
        (b.fresh time.toInt shorter).records ⊆ (b.fresh time.toInt expiry).records) ∧
    (high < (expiry : Int) → ∀ b, if time.toInt + (Word.bound - expiry) ≤ high
      then ∀ r ∈ (q.sweep b now time false).2.records, time < r.time
      else ∀ fails, q.sweep b now time fails =
        ({ q with sweepTimer := q.nextSweep now, deleting := false }, b)) ∧
    (q.deleting = true → ((∀ b, q.sweep b now time false =
      ({ q with sweepTimer := q.nextSweep now }, b.fresh time.toInt expiry)) ↔
        (expiry : Int) ≤ high)) := by
  intro expiry
  refine ⟨fun fits => ⟨expiryLimit_fits clock fits, ?_⟩, fun b => ⟨fun endless => ?_, ?_⟩,
    fun exceeds b => sweep_exceeds clock exceeds word b now,
    fun running => sweep_fresh_iff clock word running now⟩
  · exact fun b fails => sweep_fits clock fits b now fails
  · rw [endless, Bucket.fresh_zero]
  · exact fun shorter limited more r kept => Bucket.fresh_longer limited more kept

def expiringAfter (setting : String) : DurableQueue Nat :=
  .new (.ofSettings { messageExpiryInterval := (Duration.read setting).toOption.getD 0 }) 1 0

theorem expiringAfter_word (setting : String) :
    (expiringAfter setting).options.messageExpiry < Word.bound := by
  unfold expiringAfter
  cases read : Duration.read setting with
  | error e => exact show 0 < Word.bound by decide
  | ok n => exact Duration.read_lt read

def twoRecords : Bucket where
  name := "q"
  records := [⟨1, 0, [7]⟩, ⟨2, 5400000, [8]⟩]
  next := 3

theorem hour_expires :
    (expiringAfter "1h").options.messageExpiry = 3600000 ∧
      ((expiringAfter "1h").sweep twoRecords 60000 7200000 false).2.offsets = [2] ∧
      ((expiringAfter "1h").sweep twoRecords 60000 7200000 false).1.deleting = true := by
  have hour : (expiringAfter "1h").options.messageExpiry = 3600000 := by decide +kernel
  have clock : 0 ≤ (7200000 : Int64).toInt := by decide
  obtain ⟨fits, _⟩ := sweep_expires clock (expiringAfter_word "1h") 60000
  have swept := (fits (by rw [hour]; decide)).2 twoRecords false
  rw [swept, hour]
  exact ⟨rfl, by decide, rfl⟩

/-- The longest time that can be set does not keep a record of this moment. -/
theorem longest_purges :
    let q := expiringAfter "18446744073709551615ms"
    q.options.messageExpiry = Word.bound - 1 ∧
      (q.sweep twoRecords 60000 5400000 false).2.offsets = [] ∧
      ∀ r ∈ twoRecords.records, ¬r.Expired 5400000 q.options.messageExpiry := by
  decide +kernel

/-! All turns -/

def Activity.Dated : Activity → Prop
  | .sweep _ time _ => 0 ≤ time.toInt
  | _ => True

theorem Performed.deleting {q' : DurableQueue τ} {b b' : Bucket} {a : Activity}
    {tickets : List τ} (turn : Performed q b a q' b' tickets)
    (other : ∀ now time fails, a ≠ .sweep now time fails) : q'.deleting = q.deleting := by
  cases turn with
  | unswept now time fails => exact absurd rfl (other now time fails)
  | _ => rfl

theorem perform_deleting (fits : (q.options.messageExpiry : Int) ≤ high) {a : Activity}
    (dated : a.Dated) (b : Bucket) : (q.perform b a).1.deleting = q.deleting := by
  cases a with
  | sweep now time fails =>
      simp only [perform, sweep_fits dated fits]
      split
      · rfl
      · split <;> rfl
  | _ =>
      refine (perform_performed q b _).deleting fun _ _ _ same => ?_
      cases same

theorem Performed.expired {q' : DurableQueue τ} {b b' : Bucket} {a : Activity}
    {tickets : List τ} (turn : Performed q b a q' b' tickets)
    (fits : (q.options.messageExpiry : Int) ≤ high) (dated : a.Dated) {r : Record}
    (before : r ∈ b.records) (after : r ∉ b'.records) :
    r.offset ∈ q.pending ∨ ∃ now time, a = .sweep now time false ∧
      r.Expired time.toInt q.options.messageExpiry := by
  refine (turn.removed before after).imp_right ?_
  rintro ⟨now, time, limit, rfl, computed, old⟩
  refine ⟨now, time, rfl, ?_⟩
  rw [expiryLimit_fits dated fits] at computed
  split at computed
  · cases computed
  · rename_i limited
    cases computed
    have last := time.toInt_lt
    have clock : 0 ≤ time.toInt := dated
    simp only [high] at fits
    rw [Int64.lt_iff_toInt_lt, Int64.toInt_ofInt_of_le (by omega) (by omega)] at old
    exact ⟨Nat.pos_of_ne_zero limited, old⟩

/-- Whatever the activities do, the deleter goes on, and a record that goes was collected before or
had expired when a sweep came. -/
theorem performAll_removes (fits : (q.options.messageExpiry : Int) ≤ high) {b : Bucket}
    {acts : List Activity} (dated : ∀ a ∈ acts, a.Dated) :
    (performAll q b acts).1.deleting = q.deleting ∧
    ∀ r ∈ b.records, r ∉ (performAll q b acts).2.1.records →
      ∃ front a rest, acts = front ++ a :: rest ∧
        (r.offset ∈ (performAll q b front).1.pending ∨ ∃ now time, a = .sweep now time false ∧
          r.Expired time.toInt q.options.messageExpiry) := by
  induction acts generalizing q b with
  | nil => exact ⟨rfl, fun r before after => absurd before after⟩
  | cons a rest ih =>
      have own := dated a (List.mem_cons_self ..)
      have turn := perform_performed q b a
      have options := turn.options
      obtain ⟨goes, removed⟩ := ih (q := (q.perform b a).1) (b := (q.perform b a).2.1)
        (options ▸ fits) fun other member => dated other (List.mem_cons_of_mem a member)
      refine ⟨goes.trans (perform_deleting fits own b), fun r before after => ?_⟩
      by_cases left : r ∈ (q.perform b a).2.1.records
      · obtain ⟨front, later, more, rfl, why⟩ := removed r left after
        rw [options] at why
        exact ⟨a :: front, later, more, rfl, why⟩
      · exact ⟨[], a, rest, rfl, turn.expired fits own before left⟩

end DurableQueue

end MqttBroker
