import Mathlib.Data.String.Basic
import Mathlib.Data.List.Basic

namespace Qml

namespace RedisStorage

/-- The keys that are built from the configured prefix. -/
inductive PrefixedKey
  | job (jobId : String)
  | stateIndex (state : String)
  | availableJobs
  | availableJobsByQueue (queue : String)
  | jobCounts
  | allJobs
  | recurring (id : String)
  | recurringIndex
  | recurringClaim (id : String)
  | server (serverId : String)
  | serversIndex
  | namedLock (resource : String)

/-- What follows the prefix in a key. -/
@[simp]
def PrefixedKey.suffix : PrefixedKey → String
  | .job jobId => ":jobs:" ++ jobId
  | .stateIndex state => ":state:" ++ state
  | .availableJobs => ":available"
  | .availableJobsByQueue queue => ":available:" ++ queue
  | .jobCounts => ":counts"
  | .allJobs => ":all"
  | .recurring id => ":recurring:" ++ id
  | .recurringIndex => ":recurring:index"
  | .recurringClaim id => ":recurring:" ++ "claim:" ++ id
  | .server serverId => ":server:" ++ serverId
  | .serversIndex => ":servers"
  | .namedLock resource => ":lock:" ++ resource

/-- All keys of the backend. The key of a job's lock is built without the prefix. -/
inductive Key
  | prefixed (key : PrefixedKey)
  | jobLock (jobId : String)

def Key.text (keyPrefix : String) : Key → String
  | .prefixed key => keyPrefix ++ key.suffix
  | .jobLock jobId => "qml:lock:" ++ jobId

/-- The templates whose keys are those of the index and of claims. -/
inductive Overlap : PrefixedKey → PrefixedKey → Prop
  | index : Overlap (.recurring "index") .recurringIndex
  | claim (id : String) : Overlap (.recurring ("claim:" ++ id)) (.recurringClaim id)

/-- The prefixes under which a key is that of a job's lock: the default one, for the named
lock of the same name, and every one that begins with the lock keys. -/
def HitsLock (keyPrefix : String) (key : PrefixedKey) (jobId : String) : Prop :=
  keyPrefix = "qml" ∧ key = .namedLock jobId ∨
    ∃ rest, keyPrefix = "qml:lock" ++ rest ∧ rest ++ key.suffix = ":" ++ jobId

/-- Two keys of one backend with the same text. -/
inductive Clash (keyPrefix : String) : Key → Key → Prop
  | overlap {a b : PrefixedKey} (h : Overlap a b) : Clash keyPrefix (.prefixed a) (.prefixed b)
  | lock {key : PrefixedKey} {jobId : String} (h : HitsLock keyPrefix key jobId) :
      Clash keyPrefix (.prefixed key) (.jobLock jobId)

/-- Keys with the same text of two backends, neither of whose prefixes extends the other. -/
inductive Shared (left right : String) : Key → Key → Prop
  | both (jobId : String) : Shared left right (.jobLock jobId) (.jobLock jobId)
  | left {key : PrefixedKey} {jobId : String} (h : HitsLock left key jobId) :
      Shared left right (.prefixed key) (.jobLock jobId)
  | right {key : PrefixedKey} {jobId : String} (h : HitsLock right key jobId) :
      Shared left right (.jobLock jobId) (.prefixed key)

variable {a b : PrefixedKey} {jobId : String}

/-- The name up to the next colon. -/
@[simp]
def PrefixedKey.space : PrefixedKey → String
  | .job _ => "jobs"
  | .stateIndex _ => "state"
  | .availableJobs | .availableJobsByQueue _ => "available"
  | .jobCounts => "counts"
  | .allJobs => "all"
  | .recurring _ | .recurringIndex | .recurringClaim _ => "recurring"
  | .server _ => "server"
  | .serversIndex => "servers"
  | .namedLock _ => "lock"

theorem space_of_suffix (key : PrefixedKey) :
    key.suffix.toList.tail.takeWhile (fun c => c ≠ ':') = key.space.toList := by
  cases key <;> simp

theorem Overlap.suffix_eq (h : Overlap a b) : a.suffix = b.suffix := by
  cases h with
  | index => rfl
  | claim id =>
    rw [PrefixedKey.suffix, PrefixedKey.suffix, String.append_assoc]

theorem append_cancel {s x y : String} (h : s ++ x = s ++ y) : x = y :=
  String.append_right_inj s |>.mp h

theorem append_ne {s x y : String} (h : ¬ x.toList <+: s.toList) : s ≠ x ++ y := by
  rintro rfl
  rw [String.toList_append] at h
  exact h (List.prefix_append ..)

/-- Under one prefix two keys are different, the listed overlaps apart. -/
theorem suffix_eq_iff : a.suffix = b.suffix ↔ a = b ∨ Overlap a b ∨ Overlap b a := by
  constructor
  · intro h
    have hspace : a.space = b.space := by
      rw [← String.toList_inj, ← space_of_suffix, ← space_of_suffix, h]
    cases a <;> cases b <;> simp only [PrefixedKey.space, String.reduceEq] at hspace
    case job.job | stateIndex.stateIndex | server.server | namedLock.namedLock |
        availableJobsByQueue.availableJobsByQueue | recurring.recurring |
        recurringClaim.recurringClaim =>
      exact .inl (congrArg _ (append_cancel h))
    case availableJobs.availableJobs | jobCounts.jobCounts | allJobs.allJobs |
        recurringIndex.recurringIndex | serversIndex.serversIndex =>
      exact .inl rfl
    case availableJobs.availableJobsByQueue queue => exact absurd h (append_ne (by decide))
    case availableJobsByQueue.availableJobs queue => exact absurd h.symm (append_ne (by decide))
    case recurring.recurringIndex id =>
      obtain rfl : id = "index" := append_cancel h
      exact .inr (.inl .index)
    case recurringIndex.recurring id =>
      obtain rfl : id = "index" := append_cancel h.symm
      exact .inr (.inr .index)
    case recurring.recurringClaim id id' =>
      obtain rfl : id = "claim:" ++ id' := append_cancel (h.trans (String.append_assoc ..))
      exact .inr (.inl (.claim id'))
    case recurringClaim.recurring id id' =>
      obtain rfl : id' = "claim:" ++ id := append_cancel (h.symm.trans (String.append_assoc ..))
      exact .inr (.inr (.claim id))
    case recurringIndex.recurringClaim id => exact absurd h (append_ne (by decide))
    case recurringClaim.recurringIndex id => exact absurd h.symm (append_ne (by decide))
  · rintro (rfl | hab | hba)
    · rfl
    · exact hab.suffix_eq
    · exact hba.suffix_eq.symm

theorem head_suffix (key : PrefixedKey) : key.suffix.toList.head? = some ':' := by
  cases key <;> simp

/-- The constant part of the lock keys, cut where what follows begins with a colon. -/
theorem lockPart_cut {p t : List Char} (h : "qml:lock:".toList = p ++ t)
    (ht : t.head? = some ':') :
    p = "qml".toList ∧ t = ":lock:".toList ∨ p = "qml:lock".toList ∧ t = ":".toList := by
  have hp : p = "qml:lock:".toList.take p.length := by rw [h, List.take_left]
  have hrest : t = "qml:lock:".toList.drop p.length := by rw [h, List.drop_left]
  have hlength : p.length ∈ List.range 10 := by
    have := congrArg List.length h
    rw [List.length_append, show "qml:lock:".toList.length = 9 from rfl] at this
    exact List.mem_range.mpr (by omega)
  generalize p.length = n at hp hrest hlength
  subst hp hrest
  revert n
  decide

/-- The keys of job locks are those of a prefix in these cases only. -/
theorem hitsLock_iff {keyPrefix : String} {key : PrefixedKey} :
    keyPrefix ++ key.suffix = "qml:lock:" ++ jobId ↔ HitsLock keyPrefix key jobId := by
  constructor
  · intro h
    have hlists := congrArg String.toList h
    rw [String.toList_append, String.toList_append] at hlists
    rcases List.append_eq_append_iff.mp hlists with ⟨t, hconst, hsuffix⟩ | ⟨t, hp, hid⟩
    · have hhead := head_suffix key
      rw [hsuffix] at hhead
      rcases t with _ | ⟨c, t⟩
      · refine .inr ⟨":", ?_, ?_⟩
        · rw [List.append_nil] at hconst
          exact (String.toList_inj.mp hconst).symm
        · rw [String.toList_inj.mp hsuffix]
      · rcases lockPart_cut hconst (by simpa using hhead) with ⟨hp, ht⟩ | ⟨hp, ht⟩
        · have hkey : key.suffix = (PrefixedKey.namedLock jobId).suffix := by
            rw [← String.toList_inj, hsuffix, ht, PrefixedKey.suffix, String.toList_append]
          rcases suffix_eq_iff.mp hkey with rfl | hoverlap | hoverlap
          · exact .inl ⟨String.toList_inj.mp hp, rfl⟩
          · cases hoverlap
          · cases hoverlap
        · refine .inr ⟨"", String.toList_inj.mp hp, ?_⟩
          rw [← String.toList_inj, String.toList_append, String.toList_append, hsuffix, ht]
          rfl
    · refine .inr ⟨":" ++ String.ofList t, ?_, ?_⟩
      · rw [← String.toList_inj, hp]
        simp
      · rw [← String.toList_inj]
        simp [hid]
  · rintro (⟨rfl, rfl⟩ | ⟨rest, rfl, hrest⟩)
    · rw [PrefixedKey.suffix, ← String.append_assoc]
      rfl
    · rw [String.append_assoc, hrest, ← String.append_assoc]
      rfl

theorem text_eq_iff {keyPrefix : String} {a b : Key} : a.text keyPrefix = b.text keyPrefix ↔
    a = b ∨ Clash keyPrefix a b ∨ Clash keyPrefix b a := by
  constructor
  · intro h
    cases a with
    | prefixed a =>
      cases b with
      | prefixed b =>
        rcases suffix_eq_iff.mp (append_cancel h) with rfl | hab | hba
        · exact .inl rfl
        · exact .inr (.inl (.overlap hab))
        · exact .inr (.inr (.overlap hba))
      | jobLock jobId => exact .inr (.inl (.lock (hitsLock_iff.mp h)))
    | jobLock jobId =>
      cases b with
      | prefixed b => exact .inr (.inr (.lock (hitsLock_iff.mp h.symm)))
      | jobLock jobId' => exact .inl (congrArg _ (append_cancel h))
  · have clash : ∀ {a b : Key}, Clash keyPrefix a b → a.text keyPrefix = b.text keyPrefix := by
      intro a b h
      cases h with
      | overlap h => exact congrArg (keyPrefix ++ ·) h.suffix_eq
      | lock h => exact hitsLock_iff.mpr h
    rintro (rfl | hab | hba)
    · rfl
    · exact clash hab
    · exact (clash hba).symm

theorem shared_iff {left right : String} (hleft : ¬ left.toList <+: right.toList)
    (hright : ¬ right.toList <+: left.toList) {a b : Key} :
    a.text left = b.text right ↔ Shared left right a b := by
  constructor
  · intro h
    cases a with
    | prefixed a =>
      cases b with
      | prefixed b =>
        have hlists := congrArg String.toList h
        rw [Key.text, Key.text, String.toList_append, String.toList_append] at hlists
        have hprefix : right.toList <+: left.toList ++ a.suffix.toList :=
          hlists ▸ List.prefix_append ..
        rcases List.prefix_or_prefix_of_prefix (List.prefix_append ..) hprefix with hl | hr
        · exact absurd hl hleft
        · exact absurd hr hright
      | jobLock jobId => exact .left (hitsLock_iff.mp h)
    | jobLock jobId =>
      cases b with
      | prefixed b => exact .right (hitsLock_iff.mp h.symm)
      | jobLock jobId' =>
        obtain rfl : jobId = jobId' := append_cancel h
        exact .both jobId
  · intro h
    cases h with
    | both => rfl
    | left h => exact hitsLock_iff.mpr h
    | right h => exact (hitsLock_iff.mpr h).symm

/-- Two keys of a backend are different unless they are the same key or clash, and no key
of it is one of a backend under an unrelated prefix unless they share it. -/
theorem keys_disjoint_iff (keyPrefix : String) :
    (∀ a b : Key, (a.text keyPrefix = b.text keyPrefix → a = b) ↔
      ¬ Clash keyPrefix a b ∧ ¬ Clash keyPrefix b a) ∧
    ∀ other : String, ¬ keyPrefix.toList <+: other.toList → ¬ other.toList <+: keyPrefix.toList →
      ∀ a b : Key, a.text keyPrefix ≠ b.text other ↔ ¬ Shared keyPrefix other a b := by
  refine ⟨fun a b => ?_, fun other hleft hright a b => not_congr (shared_iff hleft hright)⟩
  have hne : ∀ {a b : Key}, Clash keyPrefix a b → a ≠ b := by
    rintro _ _ (⟨⟨⟩⟩ | _) h <;> cases h
  constructor
  · intro h
    refine ⟨fun hab => hne hab (h ?_), fun hba => hne hba (h ?_).symm⟩
    · exact text_eq_iff.mpr (.inr (.inl hab))
    · exact text_eq_iff.mpr (.inr (.inr hba))
  · rintro ⟨hab, hba⟩ h
    rcases text_eq_iff.mp h with heq | hclash | hclash
    · exact heq
    · exact absurd hclash hab
    · exact absurd hclash hba

theorem keys_disjoint_iff_default :
    (Key.prefixed (.server "s")).text "qml" ≠ (Key.prefixed .serversIndex).text "qml" ∧
    (Key.prefixed (.job "a")).text "qml" ≠ (Key.prefixed (.job "a")).text "myapp" := by
  obtain ⟨hsame, hother⟩ := keys_disjoint_iff "qml"
  constructor
  · intro h
    have heq := (hsame (.prefixed (.server "s")) (.prefixed .serversIndex)).mpr
      ⟨by rintro (⟨⟨⟩⟩ | _), by rintro (⟨⟨⟩⟩ | _)⟩ h
    cases heq
  · exact (hother "myapp" (by decide) (by decide) _ _).mpr (by rintro ⟨⟩)

/-- A template named `index` is stored under the key of the index; and the locks of a job
are the same key under every prefix. -/
theorem keys_clash :
    (∃ a b : Key, a.text "qml" = b.text "qml" ∧ a ≠ b) ∧
    ∃ a b : Key, ¬ "a".toList <+: "b".toList ∧ ¬ "b".toList <+: "a".toList ∧
      a.text "a" = b.text "b" :=
  ⟨⟨.prefixed (.recurring "index"), .prefixed .recurringIndex, rfl, by simp⟩,
    ⟨.jobLock "x", .jobLock "x", by decide, by decide, rfl⟩⟩

end RedisStorage
end Qml
