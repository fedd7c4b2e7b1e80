import Qml.Core.Calendar
import Qml.Redis.Progress

namespace Qml
open Lib RedisStorage

/-- The due jobs, in the order in which the script claims them up to its limit. -/
def promotionOrder (db : Db) (source variant field : String) (now : DateTime)
    (members : List String) : List (String × Job) :=
  (collectDue source variant field now members db).1.insertionSort dueNotAfter

/-- Jobs of one priority come in the order of their creation. -/
def Chronological (due : List (String × Job)) : Prop :=
  due.Pairwise fun a b => a.2.priority = b.2.priority → a.2.createdAt ≤ b.2.createdAt

/-- A creation time that follows another within the unit to which that one is written. -/
def Crowded (t u : DateTime) : Prop := t < u ∧ u < t + t.unit

instance : DecidableRel Crowded := fun _ _ => instDecidableAnd

section
variable {codec : Codec} {db : Db} {source variant field : String} {now : DateTime}
  {limit : UInt64} {members : List String} {a b e : String × Job}

theorem mem_collectDue : e ∈ (collectDue source variant field now members db).1 ↔
    e.1 ∈ members ∧ ∃ blob, db.get e.1 = some blob ∧ blob.job = e.2 ∧
      isDue variant field now e.2 = true := by
  induction members generalizing db with
  | nil => simp [collectDue]
  | cons id members ih =>
    rw [collectDue]
    cases hget : db.get id with
    | none =>
      have hsame : ∀ k, (db.srem (.state source) id).get k = db.get k := fun _ => rfl
      simp only [ih, hsame, List.mem_cons]
      constructor
      · rintro ⟨hmem, hdue⟩
        exact ⟨.inr hmem, hdue⟩
      · rintro ⟨rfl | hmem, blob, hblob, hdue⟩
        · cases hget.symm.trans hblob
        · exact ⟨hmem, blob, hblob, hdue⟩
    | some blob =>
      have hcons : ∀ rest : List (String × Job),
          e ∈ (if isDue variant field now blob.job then (id, blob.job) :: rest else rest) ↔
            e = (id, blob.job) ∧ isDue variant field now e.2 = true ∨ e ∈ rest := by
        intro rest
        split
        · rename_i hdue
          rw [List.mem_cons]
          refine or_congr_left ⟨fun h => ⟨h, h ▸ hdue⟩, fun h => h.1⟩
        · rename_i hdue
          refine (or_iff_right fun h => hdue ?_).symm
          rw [h.1] at h
          exact h.2
      simp only [hcons, ih, List.mem_cons]
      constructor
      · rintro (⟨rfl, hdue⟩ | ⟨hmem, hdue⟩)
        · exact ⟨.inl rfl, blob, hget, rfl, hdue⟩
        · exact ⟨.inr hmem, hdue⟩
      · rintro ⟨hid | hmem, found, hfound, hjob, hdue⟩
        · rw [hid] at hfound
          cases hget.symm.trans hfound
          exact .inl ⟨Prod.ext hid hjob.symm, hdue⟩
        · exact .inr ⟨hmem, found, hfound, hjob, hdue⟩

theorem dueNotAfter_iff : dueNotAfter a b ↔ b.2.priority < a.2.priority ∨
    a.2.priority = b.2.priority ∧ a.2.createdAt.rfc3339 ≤ b.2.createdAt.rfc3339 := by
  unfold dueNotAfter
  split
  · rename_i hne
    rw [not_lt]
    constructor
    · intro hle
      exact .inl (lt_of_le_of_ne hle (Ne.symm hne))
    · rintro (hlt | ⟨heq, -⟩)
      · exact hlt.le
      · exact absurd heq hne
  · rename_i heq
    have heq := not_not.mp heq
    rw [not_lt, heq]
    simp

instance : Std.Total dueNotAfter := ⟨fun a b => by
  rw [dueNotAfter_iff, dueNotAfter_iff]
  rcases lt_trichotomy a.2.priority b.2.priority with h | h | h
  · exact .inr (.inl h)
  · rcases le_total a.2.createdAt.rfc3339 b.2.createdAt.rfc3339 with hle | hle
    · exact .inl (.inr ⟨h, hle⟩)
    · exact .inr (.inr ⟨h.symm, hle⟩)
  · exact .inl (.inl h)⟩

instance : IsTrans (String × Job) dueNotAfter := ⟨fun a b c hab hbc => by
  rw [dueNotAfter_iff] at *
  rcases hab with hab | ⟨hab, hab'⟩
  · rcases hbc with hbc | ⟨hbc, -⟩
    · exact .inl (hbc.trans hab)
    · exact .inl (hbc ▸ hab)
  · rcases hbc with hbc | ⟨hbc, hbc'⟩
    · exact .inl (hab ▸ hbc)
    · exact .inr ⟨hab.trans hbc, hab'.trans hbc'⟩⟩

/-- Sorted by their texts, jobs are in the order of their creation exactly when no two of
one priority are crowded. -/
theorem chronological_iff {due : List (String × Job)} (hsorted : due.Pairwise dueNotAfter)
    (hyears : ∀ e ∈ due, e.2.createdAt.InYears) : Chronological due ↔
      ∀ a ∈ due, ∀ b ∈ due, a.2.priority = b.2.priority →
        ¬ Crowded a.2.createdAt b.2.createdAt := by
  constructor
  · intro hchronological a ha b hb hpriority hcrowded
    obtain ⟨i, hi, rfl⟩ := List.mem_iff_getElem.mp ha
    obtain ⟨j, hj, rfl⟩ := List.mem_iff_getElem.mp hb
    have htext := (DateTime.rfc3339_lt_iff (hyears _ ha) (hyears _ hb) hcrowded.1).2.mpr
      hcrowded.2
    rcases lt_trichotomy i j with hij | rfl | hij
    · rcases dueNotAfter_iff.mp (List.pairwise_iff_getElem.mp hsorted i j hi hj hij) with h | h
      · exact absurd hpriority h.ne'
      · exact absurd htext (not_lt.mpr h.2)
    · exact lt_irrefl _ hcrowded.1
    · exact absurd hcrowded.1
        (not_lt.mpr (List.pairwise_iff_getElem.mp hchronological j i hj hi hij hpriority.symm))
  · intro hnone
    refine hsorted.imp_of_mem fun {a b} ha hb hab hpriority => ?_
    by_contra hlt
    have hlt := not_le.mp hlt
    have hfar := not_and.mp (hnone b hb a ha hpriority.symm) hlt
    have htext := (DateTime.rfc3339_lt_iff (hyears b hb) (hyears a ha) hlt).1.mpr (not_lt.mp hfar)
    rcases dueNotAfter_iff.mp hab with h | h
    · exact absurd hpriority h.ne'
    · exact absurd htext (not_lt.mpr h.2)

/-- Over every database, the script takes a waiting job for due exactly when its time has
come, but for the times that the comparison of texts misreads; and it claims the due jobs
of one priority in the order of their creation exactly when no two of them are crowded. -/
theorem due_chronological_iff (db : Db) (members : List String) (hnow : now.InYears) :
    (∀ id ∈ members, ∀ blob t, db.get id = some blob →
      timeField variant field blob.job.state = some t → t.InYears →
      (((id, blob.job) ∈ promotionOrder db source variant field now members ↔ t ≤ now) ↔
        ¬ DateTime.Misread t now)) ∧
    ((∀ e ∈ promotionOrder db source variant field now members, e.2.createdAt.InYears) →
      (Chronological (promotionOrder db source variant field now members) ↔
        ∀ a ∈ promotionOrder db source variant field now members,
        ∀ b ∈ promotionOrder db source variant field now members,
          a.2.priority = b.2.priority → ¬ Crowded a.2.createdAt b.2.createdAt)) := by
  constructor
  · intro id hid blob t hget htime hyears
    rw [← DateTime.rfc3339_le_micros_iff hyears hnow, promotionOrder, List.mem_insertionSort,
      mem_collectDue]
    have hdue : isDue variant field now blob.job = true ↔ t.rfc3339 ≤ now.rfc3339Micros := by
      rw [isDue, htime, decide_eq_true_eq]
    simp [hid, hget, hdue]
  · intro hyears
    exact chronological_iff (List.pairwise_insertionSort dueNotAfter _) hyears

end

def noon : DateTime := 1767268800000000000

/-- A job that is scheduled for noon, to the second. -/
def appointment (id : String) (priority : Int) (created : DateTime) : Job :=
  { Job.withConfig id created "ring" .null "default" priority 3 with
    state := .scheduled 0 noon "at noon" }

def calendarOf (jobs : List Job) : Db :=
  jobs.foldl (fun db job => (db.set job.id ⟨job, true⟩).sadd (.state "scheduled") job.id) .empty

/-- Three jobs for noon, two of them of one priority, and one for the hour after. -/
def calendar : Db :=
  calendarOf [appointment "j" 0 5000000000, appointment "k" 0 2000000000,
    appointment "l" 9 9000000000,
    { appointment "m" 0 0 with state := .scheduled 0 (noon + Duration.hours 1) "at one" }]

theorem due_chronological_iff_calendar :
    let order := promotionOrder calendar "scheduled" "Scheduled" "enqueue_at"
      (noon + Duration.seconds 1) ["j", "k", "l", "m"]
    (("j", appointment "j" 0 5000000000) ∈ order ↔ noon ≤ noon + Duration.seconds 1) ∧
    (("m", { appointment "m" 0 0 with state := .scheduled 0 (noon + Duration.hours 1) "at one" }) ∈
      order ↔ noon + Duration.hours 1 ≤ noon + Duration.seconds 1) ∧
    order.map Prod.fst = ["l", "k", "j"] ∧ Chronological order := by
  have hyears : (noon + Duration.seconds 1).InYears := by decide +kernel
  have hiff := @due_chronological_iff "scheduled" "Scheduled" "enqueue_at" _
    calendar ["j", "k", "l", "m"] hyears
  refine ⟨(hiff.1 "j" (by decide) ⟨appointment "j" 0 5000000000, true⟩ noon rfl rfl
    (by decide +kernel)).mpr (by decide +kernel), (hiff.1 "m" (by decide) ⟨_, true⟩
    (noon + Duration.hours 1) rfl rfl (by decide +kernel)).mpr (by decide +kernel),
    by decide +kernel, (hiff.2 ?_).mpr ?_⟩
  · decide +kernel
  · decide +kernel

/-- Half a second later the job is not yet taken for due. -/
theorem appointment_missed : noon ≤ noon + Duration.milliseconds 500 ∧ ∃ db',
    (calendarOf [appointment "j" 0 0]).call .lossless
      (RedisStorage.claimDueScheduledJobs (noon + Duration.milliseconds 500) 10)
      (fun _ => ⟨0, []⟩) = some (.ok [], db') := by
  have hnone : ((calendarOf [appointment "j" 0 0]).call .lossless
      (RedisStorage.claimDueScheduledJobs (noon + Duration.milliseconds 500) 10)
      (fun _ => ⟨0, []⟩)).any (fun result => result.1.toOption.any List.isEmpty) = true := by
    decide +kernel
  obtain ⟨⟨reply, db'⟩, hcall, hempty⟩ := (Option.any_eq_true ..).mp hnone
  refine ⟨by decide +kernel, db', hcall.trans ?_⟩
  cases reply with
  | error e => cases hempty
  | ok jobs =>
    obtain rfl := List.isEmpty_iff.mp hempty
    rfl

end Qml
