import Mathlib
/-!
# WaitSets — condition variables

A condition variable is the set of the threads asleep on it.  `notify_all` empties the set and a spurious wake-up
takes one thread out; `notify_one` is a partial function, since it wakes a thread of its own choice.  `Attended` is
the invariant of a queue whose every push notifies one thread: while somebody sleeps there is an awake idle thread for
every job.
-/
namespace WaitSets

variable {ι : Type*} [DecidableEq ι]

/-- `notify_one`: `woken` is the thread it wakes, and it wakes none only if none sleeps. -/
def notifyOne (asleep : Finset ι) : Option ι → Option (Finset ι)
  | none   => if asleep = ∅ then some ∅ else none
  | some i => if i ∈ asleep then some (asleep.erase i) else none

theorem notifyOne_subset {asleep asleep' : Finset ι} {woken : Option ι} (h : notifyOne asleep woken = some asleep') :
    asleep' ⊆ asleep := by
  cases woken with
  | none =>
    simp only [notifyOne, Option.ite_none_right_eq_some, Option.some.injEq] at h
    exact h.2 ▸ Finset.empty_subset _
  | some i =>
    simp only [notifyOne, Option.ite_none_right_eq_some, Option.some.injEq] at h
    exact h.2 ▸ Finset.erase_subset i asleep

theorem exists_notifyOne (asleep : Finset ι) : ∃ woken asleep', notifyOne asleep woken = some asleep' := by
  rcases asleep.eq_empty_or_nonempty with h | ⟨i, hi⟩
  · exact ⟨none, ∅, if_pos h⟩
  · exact ⟨some i, asleep.erase i, if_pos hi⟩

/-- **While somebody sleeps there is an awake idle thread for every job.** -/
def Attended (idle asleep : Finset ι) (jobs : Nat) : Prop := asleep.Nonempty → jobs ≤ (idle \ asleep).card

theorem attended_empty (idle : Finset ι) (jobs : Nat) : Attended idle ∅ jobs := fun h => by simp at h

theorem attended_zero (idle asleep : Finset ι) : Attended idle asleep 0 := fun _ => Nat.zero_le _

theorem Attended.fewer {idle asleep : Finset ι} {jobs jobs' : Nat} (h : Attended idle asleep jobs)
    (hle : jobs' ≤ jobs) : Attended idle asleep jobs' := fun hne => hle.trans (h hne)

theorem Attended.mono {idle idle' asleep asleep' : Finset ι} {jobs : Nat} (h : Attended idle asleep jobs)
    (hidle : idle ⊆ idle') (hasleep : asleep' ⊆ asleep) : Attended idle' asleep' jobs := by
  intro hne
  exact (h (hne.mono hasleep)).trans (Finset.card_le_card (Finset.sdiff_subset_sdiff hidle hasleep))

theorem Attended.push {idle asleep asleep' : Finset ι} {jobs : Nat} {woken : Option ι} (h : Attended idle asleep jobs)
    (hsub : asleep ⊆ idle) (hn : notifyOne asleep woken = some asleep') : Attended idle asleep' (jobs + 1) := by
  cases woken with
  | none =>
    simp only [notifyOne, Option.ite_none_right_eq_some, Option.some.injEq] at hn
    exact hn.2 ▸ attended_empty idle _
  | some i =>
    simp only [notifyOne, Option.ite_none_right_eq_some, Option.some.injEq] at hn
    obtain ⟨hi, rfl⟩ := hn
    intro _
    have hjobs := h ⟨i, hi⟩
    have hins : idle \ asleep.erase i = insert i (idle \ asleep) := by
      apply Finset.ext
      intro j
      simp only [Finset.mem_sdiff, Finset.mem_erase, Finset.mem_insert]
      constructor
      · rintro ⟨hj, hn⟩
        by_cases hij : j = i
        · exact .inl hij
        · exact .inr ⟨hj, fun hm => hn ⟨hij, hm⟩⟩
      · rintro (rfl | ⟨hj, hm⟩)
        · exact ⟨hsub hi, fun hn => hn.1 rfl⟩
        · exact ⟨hj, fun hn => hm hn.2⟩
    rw [hins, Finset.card_insert_of_notMem (by simp [hi])]
    omega

theorem Attended.pop {idle asleep : Finset ι} {jobs : Nat} {i : ι} (h : Attended idle asleep (jobs + 1))
    (hi : i ∈ idle \ asleep) : Attended (idle.erase i) asleep jobs := by
  intro hne
  have hjobs := h hne
  rw [Finset.erase_sdiff_comm, Finset.card_erase_of_mem hi]
  omega

/-- **No job is left to sleepers**: as many idle threads are awake as there are jobs, or all of them are. -/
theorem Attended.min_le {idle asleep : Finset ι} {jobs : Nat} (h : Attended idle asleep jobs) :
    min jobs idle.card ≤ (idle \ asleep).card := by
  rcases asleep.eq_empty_or_nonempty with rfl | hne
  · rw [Finset.sdiff_empty]
    exact min_le_right _ _
  · exact (min_le_left _ _).trans (h hne)

end WaitSets
