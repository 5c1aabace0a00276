import ThreadCore.Proofs.Runs

/-!
# Inherited priorities

In every state of a disciplined run the donors of a thread are the waiters of the locks that it
holds, and its effective priority is the greatest base priority among the threads that wait for it,
directly or at the end of a chain of waits (`reached_inherits`).
-/

namespace ThreadCore

open Relation

namespace Core

variable {k : Core} {g : Stage} {t d : ThreadId} {th : Thread}

/-- The donors of a thread are the waiters of the locks that it holds. -/
theorem Sound.mem_donors_iff (hk : k.Sound g) (hth : k.threads[t]? = some th) :
    d ∈ th.donors ↔ ∃ (l : ObjectId) (o : Lock),
      k.objects.locks[l]? = some o ∧ o.holder = some t ∧ d ∈ o.waiters := by
  have hd : d ∈ th.donors ↔ d ∈ k.waits.donors t := by
    simp [Core.waits, hth, Queue.mem_def]
  rw [hd, hk.waits.wired.mem_donors, Waits.awaits_iff]
  constructor
  · rintro ⟨l, hl, hh⟩
    obtain ⟨o, ho, hoh⟩ := Option.bind_eq_some_iff.mp hh
    have hmem := (hk.waits.wired.waitsFor_iff d l).mp hl
    rw [waiters_lock ho] at hmem
    exact ⟨l, o, ho, hoh, hmem⟩
  · rintro ⟨l, o, ho, hoh, hmem⟩
    refine ⟨l, (hk.waits.wired.waitsFor_iff d l).mpr ?_, ?_⟩
    · rw [waiters_lock ho]
      exact hmem
    · rw [holder_lock ho, hoh]

theorem Sound.nodup_donors (hk : k.Sound g) (hth : k.threads[t]? = some th) :
    th.donors.entries.Nodup := by
  have h := hk.waits.wired.nodup_donors t
  simpa [Core.waits, hth] using h

/-- Only live threads wait, and they are finitely many. -/
theorem finite_waiting (k : Core) : {t | k.waits.waitsFor t ≠ none}.Finite := by
  refine (List.finite_toSet k.threads.keys).subset fun t ht => ?_
  obtain ⟨l, hl⟩ := Option.ne_none_iff_exists'.mp ht
  obtain ⟨th, hth, -⟩ := Option.bind_eq_some_iff.mp hl
  show t ∈ k.threads.keys
  rw [Std.ExtTreeMap.mem_keys, Std.ExtTreeMap.mem_iff_isSome_getElem?, hth]
  rfl

/-- The effective priority of a live thread is the greatest base priority among the live threads
whose chain of waits leads to it. -/
theorem Sound.isGreatest_priority (hk : k.Sound g) (hth : k.threads[t]? = some th) :
    IsGreatest {p | ∃ u uth, ReflTransGen k.Awaits u t ∧ k.threads[u]? = some uth ∧ uth.base = p}
      th.priority := by
  have h := Waits.isGreatest_priority hk.waits k.finite_waiting t
  have hp : k.waits.priority t = th.priority := by simp [Core.waits, hth]
  rw [hp, ← awaits_eq] at h
  convert h using 1
  ext p
  constructor
  · rintro ⟨u, uth, hut, hu, rfl⟩
    exact ⟨u, hut, by simp [Core.waits, hu]⟩
  · rintro ⟨u, hut, rfl⟩
    obtain ⟨uth, hu⟩ : ∃ uth, k.threads[u]? = some uth := by
      rcases ReflTransGen.cases_head hut with rfl | ⟨v, ⟨uth, _, _, hu, -⟩, -⟩
      · exact ⟨th, hth⟩
      · exact ⟨uth, hu⟩
    exact ⟨u, uth, hut, hu, by simp [Core.waits, hu]⟩

end Core

namespace Session

/-- **Inherited priorities.** In every state of a disciplined run, the donors of a live thread are
the waiters of all the locks it holds, none of them twice, and its effective priority is the
greatest base priority among the threads that lead to it from waiter to holder, itself included. -/
theorem reached_inherits {frames : List Bool} {s : Session} (h : Reached Disciplined frames s)
    {t : ThreadId} {th : Thread} (hth : s.core.threads[t]? = some th) :
    th.donors.entries.Nodup ∧
      (∀ d, d ∈ th.donors ↔
        ∃ (l : ObjectId) (o : Lock),
          s.core.objects.locks[l]? = some o ∧ o.holder = some t ∧ d ∈ o.waiters) ∧
      IsGreatest {p | ∃ u uth, ReflTransGen s.core.Awaits u t ∧ s.core.threads[u]? = some uth ∧
        uth.base = p} th.priority :=
  ⟨h.inOrder.nodup_donors hth, fun _ => h.inOrder.mem_donors_iff hth,
    h.inOrder.isGreatest_priority hth⟩

/-- The thread that boots holds a lock for which a more urgent thread has begun to wait. -/
theorem reached_inherits_contended : ∃ s th, Reached Disciplined [] s ∧
    s.core.threads[(1 : ThreadId)]? = some th ∧ th.donors.entries = [3] ∧ th.base < th.priority ∧
    th.donors.entries.Nodup ∧
      (∀ d, d ∈ th.donors ↔
        ∃ (l : ObjectId) (o : Lock),
          s.core.objects.locks[l]? = some o ∧ o.holder = some 1 ∧ d ∈ o.waiters) ∧
      IsGreatest {p | ∃ u uth, ReflTransGen s.core.Awaits u 1 ∧ s.core.threads[u]? = some uth ∧
        uth.base = p} th.priority := by
  have hrun : (afterBoot ⟨none, none, none, false, none⟩
      [.newLock, .acquire 0, .create "urgent" 40, .acquire 0]).any (fun s =>
        (s.core.threads[(1 : ThreadId)]?).any fun th =>
          th.donors.entries = [3] ∧ th.base < th.priority) = true := by
    decide +kernel
  obtain ⟨s, hs, hrun⟩ := (Option.any_eq_true _ _).mp hrun
  obtain ⟨th, hth, hrun⟩ := (Option.any_eq_true _ _).mp hrun
  obtain ⟨hd, hb⟩ := of_decide_eq_true hrun
  have hreach := reached_afterBoot (fun _ _ => Disciplined.plain) hs
  exact ⟨s, th, hreach, hth, hd, hb, reached_inherits hreach hth⟩

end Session

end ThreadCore
