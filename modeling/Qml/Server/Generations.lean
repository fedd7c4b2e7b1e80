import Qml.Server.Site

namespace Qml
open Lib

namespace Host

/-- The loops spawned so far, each with its token. -/
def spawned (h : Host) : List (Nat × Loop) := h.tasks.map fun task => (task.token, task.loop)

/-- What holds while a call has come so far. -/
def Fits (h : Host) : CallPhase → Prop
  | .entered isRunning => h.isRunning = isRunning
  | .renewed token | .registered token _ =>
    h.isRunning = false ∧ h.shutdownToken = token ∧ ∀ loop, (token, loop) ∉ h.spawned
  | .spawning token before _ =>
    (token ∈ h.cancelled ∨ h.isRunning = true ∧ h.shutdownToken = token) ∧
      ∀ loop, (token, loop) ∈ h.spawned → loop ∈ before
  | _ => True

/-- The tokens that are made, and the loops that run on them. -/
structure Tidy (h : Host) : Prop where
  current : h.shutdownToken < h.tokens
  issued : ∀ token loop, (token, loop) ∈ h.spawned → token < h.tokens
  live : ∀ token loop, (token, loop) ∈ h.spawned →
    token ∈ h.cancelled ∨ h.isRunning = true ∧ h.shutdownToken = token
  distinct : h.spawned.Nodup

/-- Nothing has happened to the tokens and the loops. -/
structure Same (h h' : Host) : Prop where
  isRunning : h'.isRunning = h.isRunning
  shutdownToken : h'.shutdownToken = h.shutdownToken
  tokens : h'.tokens = h.tokens
  cancelled : h'.cancelled = h.cancelled
  spawned : h'.spawned = h.spawned

variable {h h' : Host} {phase : CallPhase} {token : Nat} {loops : List Loop}

theorem Same.fits (hsame : Same h h') (hfits : h.Fits phase) : h'.Fits phase := by
  cases phase
  all_goals
    simp only [Fits, hsame.isRunning, hsame.shutdownToken, hsame.cancelled, hsame.spawned]
      at hfits ⊢
    try exact hfits

theorem Same.tidy (hsame : Same h h') (htidy : h.Tidy) : h'.Tidy where
  current := by
    rw [hsame.shutdownToken, hsame.tokens]
    exact htidy.current
  issued := by
    rw [hsame.spawned, hsame.tokens]
    exact htidy.issued
  live := by
    rw [hsame.spawned, hsame.cancelled, hsame.isRunning, hsame.shutdownToken]
    exact htidy.live
  distinct := by
    rw [hsame.spawned]
    exact htidy.distinct

theorem spawned_abortAll (h : Host) (handles : List Nat) :
    spawned { h with tasks := abortAll handles h.tasks } = h.spawned := by
  refine List.ext_getElem? fun j => ?_
  simp only [spawned, abortAll, List.getElem?_map, List.getElem?_mapIdx]
  cases h.tasks[j]? with
  | none => rfl
  | some task =>
    simp only [Option.map_some]
    split <;> rfl

theorem spawned_setTask {j : Nat} {task : LoopTask} (htask : h.tasks[j]? = some task)
    (state : LoopState) :
    spawned { h with tasks := h.tasks.set j { task with state := state } } = h.spawned :=
  map_set_same _ htask rfl

theorem spawned_spawn (h : Host) (loops : List Loop) (token : Nat) :
    (h.spawn loops token).spawned = h.spawned ++ loops.map fun loop => (token, loop) := by
  simp [spawned, spawn, Function.comp_def]

theorem mem_spawn {t : Nat} {loop : Loop} : (t, loop) ∈ (h.spawn loops token).spawned ↔
    (t, loop) ∈ h.spawned ∨ t = token ∧ loop ∈ loops := by
  rw [spawned_spawn, List.mem_append, List.mem_map]
  refine or_congr_right ⟨?_, ?_⟩
  · rintro ⟨l, hl, he⟩
    cases he
    exact ⟨rfl, hl⟩
  · rintro ⟨rfl, hl⟩
    exact ⟨loop, hl, rfl⟩

/-- Spawning a loop concerns nobody but those who work with its token. -/
theorem Fits.spawn (hfits : h.Fits phase) (hne : phase.token ≠ some token) :
    (h.spawn loops token).Fits phase := by
  have hother : ∀ t loop, phase.token = some t → (t, loop) ∈ (h.spawn loops token).spawned →
      (t, loop) ∈ h.spawned := by
    intro t loop ht hmem
    rcases mem_spawn.mp hmem with hmem | ⟨rfl, -⟩
    · exact hmem
    · exact absurd ht hne
  cases phase with
  | renewed t =>
    exact ⟨hfits.1, hfits.2.1, fun loop hmem => hfits.2.2 loop (hother t loop rfl hmem)⟩
  | registered t id =>
    exact ⟨hfits.1, hfits.2.1, fun loop hmem => hfits.2.2 loop (hother t loop rfl hmem)⟩
  | spawning t before loose =>
    exact ⟨hfits.1, fun loop hmem => hfits.2 loop (hother t loop rfl hmem)⟩
  | entered isRunning => exact hfits
  | outside | stopping | leaving | left | draining | returned => trivial

theorem Tidy.spawn {before : List Loop} {loose : Option Nat} (htidy : h.Tidy)
    (hfits : h.Fits (.spawning token before loose)) (hissued : token < h.tokens)
    (hnodup : loops.Nodup) (hnew : ∀ loop ∈ loops, loop ∉ before) :
    (h.spawn loops token).Tidy where
  current := htidy.current
  issued := by
    intro t loop hmem
    rcases mem_spawn.mp hmem with hmem | ⟨rfl, -⟩
    · exact htidy.issued t loop hmem
    · exact hissued
  live := by
    intro t loop hmem
    rcases mem_spawn.mp hmem with hmem | ⟨rfl, -⟩
    · exact htidy.live t loop hmem
    · exact hfits.1
  distinct := by
    rw [spawned_spawn]
    refine List.nodup_append'.mpr ⟨htidy.distinct, hnodup.map fun a b he => ?_, fun a ha hb => ?_⟩
    · cases he
      rfl
    · obtain ⟨loop, hloop, rfl⟩ := List.mem_map.mp hb
      exact hnew loop hloop (hfits.2 loop ha)

/-- A change of the flag or the tokens, seen by a call that does not hold the flag locked. -/
theorem Fits.unlocked (hfits : h.Fits phase) (hlocks : phase.locks = false)
    (hspawned : h'.spawned = h.spawned)
    (hlive : ∀ token, token ∈ h.cancelled ∨ h.isRunning = true ∧ h.shutdownToken = token →
      token ∈ h'.cancelled ∨ h'.isRunning = true ∧ h'.shutdownToken = token) :
    h'.Fits phase := by
  cases phase with
  | entered | renewed | registered => cases hlocks
  | spawning t before loose => exact ⟨hlive t hfits.1, hspawned ▸ hfits.2⟩
  | outside | stopping | leaving | left | draining | returned => trivial

/-- A `start` that is ready to go on has the flag locked, and its token is the current one. -/
theorem Fits.ready {id : Option String} (hfits : h.Fits phase)
    (hready : phase.ready = some (token, id)) : phase.locks = true ∧ phase.token = some token ∧
      h.isRunning = false ∧ h.shutdownToken = token ∧ ∀ loop, (token, loop) ∉ h.spawned := by
  cases phase with
  | renewed t | registered t _ =>
    cases hready
    exact ⟨rfl, rfl, hfits⟩
  | outside | entered | spawning | stopping | leaving | left | draining | returned => cases hready

end Host

namespace ServerSite

/-- What holds of every server: one call at a time has the flag locked, no two calls share a
token, and the loops whose token is not cancelled are those of the running server. -/
structure Sound (s : ServerSite) : Prop where
  tidy : s.host.Tidy
  obeys : ∀ (i : Nat) (call : HostCall), s.calls[i]? = some call →
    Lifecycle.Obeys call.program call.phase
  locked : ∀ (i : Nat) (call : HostCall), s.calls[i]? = some call → call.alive = true →
    call.phase.locks = true → s.host.writer = some i
  fits : ∀ (i : Nat) (call : HostCall), s.calls[i]? = some call → call.alive = true →
    s.host.Fits call.phase
  issued : ∀ (i : Nat) (call : HostCall) token, s.calls[i]? = some call →
    call.phase.token = some token → token < s.host.tokens
  apart : ∀ (i j : Nat) (a b : HostCall) token, s.calls[i]? = some a → s.calls[j]? = some b →
    a.phase.token = some token → b.phase.token = some token → i = j

variable {config : StartConfig} {s t : ServerSite} {e : Event} {i : Nat} {call : HostCall}
  {host : Host} {phase : CallPhase} {program : Prog LifecycleCall (Except QmlError Unit)}

/-- Who holds the flag locked is alone with it. -/
theorem Sound.alone (hs : Sound s) (hcall : s.calls[i]? = some call) (halive : call.alive = true)
    (hlocks : call.phase.locks = true) {j : Nat} {other : HostCall} (hne : j ≠ i)
    (hother : s.calls[j]? = some other) (hothers : other.alive = true) :
    other.phase.locks = false := by
  cases hlocked : other.phase.locks with
  | false => rfl
  | true =>
    have hj := hs.locked j other hother hothers hlocked
    rw [hs.locked i call hcall halive hlocks] at hj
    exact absurd (Option.some.inj hj).symm hne

theorem Sound.enter (hs : Sound s) (hobeys : Lifecycle.Obeys program .outside) :
    Sound (s.enter program) where
  tidy := hs.tidy
  obeys := by
    intro j other hj
    rcases join_cases hj with ⟨-, rfl⟩ | hj
    · exact hobeys
    · exact hs.obeys j other hj
  locked := by
    intro j other hj halive hlocks
    rcases join_cases hj with ⟨-, rfl⟩ | hj
    · cases hlocks
    · exact hs.locked j other hj halive hlocks
  fits := by
    intro j other hj halive
    rcases join_cases hj with ⟨-, rfl⟩ | hj
    · trivial
    · exact hs.fits j other hj halive
  issued := by
    intro j other token hj htoken
    rcases join_cases hj with ⟨-, rfl⟩ | hj
    · cases htoken
    · exact hs.issued j other token hj htoken
  apart := by
    intro j k a b token hj hk ha hb
    rcases join_cases hj with ⟨-, rfl⟩ | hj
    · cases ha
    · rcases join_cases hk with ⟨-, rfl⟩ | hk
      · cases hb
      · exact hs.apart j k a b token hj hk ha hb

/-- What a call has to keep so that all of it is kept. -/
theorem Sound.replace (hs : Sound s) (hcall : s.calls[i]? = some call) (htidy : host.Tidy)
    (hobeys : Lifecycle.Obeys program phase)
    (hlocked : phase.locks = true → host.writer = some i)
    (hwriter : ∀ j, j ≠ i → s.host.writer = some j → host.writer = some j)
    (hfits : host.Fits phase)
    (hothers : ∀ (j : Nat) (other : HostCall), j ≠ i → s.calls[j]? = some other →
      other.alive = true → host.Fits other.phase)
    (htokens : s.host.tokens ≤ host.tokens)
    (htoken : ∀ token, phase.token = some token → call.phase.token = some token ∨
      token = s.host.tokens ∧ token < host.tokens) :
    Sound ⟨host, s.calls.set i { call with program := program, phase := phase }⟩ where
  tidy := htidy
  obeys := by
    intro j other hj
    rcases set_cases hj with ⟨-, rfl⟩ | ⟨-, hj⟩
    · exact hobeys
    · exact hs.obeys j other hj
  locked := by
    intro j other hj halive hlocks
    rcases set_cases hj with ⟨rfl, rfl⟩ | ⟨hne, hj⟩
    · exact hlocked hlocks
    · exact hwriter j hne (hs.locked j other hj halive hlocks)
  fits := by
    intro j other hj halive
    rcases set_cases hj with ⟨-, rfl⟩ | ⟨hne, hj⟩
    · exact hfits
    · exact hothers j other hne hj halive
  issued := by
    intro j other token hj hother
    rcases set_cases hj with ⟨-, rfl⟩ | ⟨-, hj⟩
    · rcases htoken token hother with hold | ⟨-, hlt⟩
      · exact Nat.lt_of_lt_of_le (hs.issued i call token hcall hold) htokens
      · exact hlt
    · exact Nat.lt_of_lt_of_le (hs.issued j other token hj hother) htokens
  apart := by
    have hfresh : ∀ (j : Nat) (other : HostCall) token, j ≠ i → s.calls[j]? = some other →
        other.phase.token = some token → phase.token ≠ some token := by
      intro j other token hne hj hother hself
      rcases htoken token hself with hold | ⟨rfl, -⟩
      · exact hne (hs.apart j i other call token hj hcall hother hold)
      · exact Nat.lt_irrefl _ (hs.issued j other _ hj hother)
    intro j k a b token hj hk ha hb
    rcases set_cases hj with ⟨rfl, rfl⟩ | ⟨hji, hold⟩
    · rcases set_cases hk with ⟨rfl, -⟩ | ⟨hne, hk⟩
      · rfl
      · exact absurd ha (hfresh k b token hne hk hb)
    · rcases set_cases hk with ⟨rfl, rfl⟩ | ⟨-, hk⟩
      · exact absurd hb (hfresh j a token hji hold ha)
      · exact hs.apart j k a b token hold hk ha hb

/-- A call that leaves the tokens and the loops alone. -/
theorem Sound.replace_same (hs : Sound s) (hcall : s.calls[i]? = some call)
    (hsame : Host.Same s.host host) (hobeys : Lifecycle.Obeys program phase)
    (hlocked : phase.locks = true → host.writer = some i)
    (hwriter : ∀ j, j ≠ i → s.host.writer = some j → host.writer = some j)
    (hfits : s.host.Fits phase)
    (htoken : ∀ token, phase.token = some token → call.phase.token = some token) :
    Sound ⟨host, s.calls.set i { call with program := program, phase := phase }⟩ :=
  hs.replace hcall (hsame.tidy hs.tidy) hobeys hlocked hwriter (hsame.fits hfits)
    (fun j other _ hj hothers => hsame.fits (hs.fits j other hj hothers)) hsame.tokens.ge
    fun token h => .inl (htoken token h)

/-- What a call does keeps all of it. -/
theorem Sound.called {draw : HostDraw} {ρ : Type} {op : LifecycleCall ρ} (hs : Sound s)
    (hcall : s.calls[i]? = some call) (halive : call.alive = true)
    (hacts : Host.Acts draw i s.host op call.phase host phase)
    (hobeys : Lifecycle.Obeys program phase) :
    Sound ⟨host, s.calls.set i { call with program := program, phase := phase }⟩ := by
  have hown := hs.fits i call hcall halive
  have hheld := hs.locked i call hcall halive
  have halone : call.phase.locks = true → ∀ (j : Nat) (other : HostCall), j ≠ i →
      s.calls[j]? = some other → other.alive = true →
        other.phase.locks = false ∧ s.host.Fits other.phase := fun hlocks j other hne hj hothers =>
    ⟨hs.alone hcall halive hlocks hne hj hothers, hs.fits j other hj hothers⟩
  -- a call that holds the flag locked is the writer, so that no other one is
  have hreleased : call.phase.locks = true → ∀ j, j ≠ i → s.host.writer = some j →
      (none : Option Nat) = some j := fun hlocks j hne hj => by
    rw [hheld hlocks] at hj
    exact absurd (Option.some.inj hj).symm hne
  generalize hphase : call.phase = before at hacts hown hheld halone hreleased
  have hstrange : ∀ (j : Nat) (other : HostCall) {token : Nat}, j ≠ i → s.calls[j]? = some other →
      before.token = some token → other.phase.token ≠ some token :=
    fun j other token hne hj htoken hother =>
      hne (hs.apart j i other call token hj hcall hother (hphase ▸ htoken))
  have hkept : ∀ {other : CallPhase},
      (∀ token, other.token = some token → before.token = some token) →
      ∀ token, other.token = some token → call.phase.token = some token :=
    fun h token ht => hphase ▸ h token ht
  cases hacts with
  | idle op =>
    exact hs.replace_same hcall ⟨rfl, rfl, rfl, rfl, rfl⟩ hobeys hheld (fun _ _ h => h) hown
      (hkept fun _ h => h)
  | locked hfree =>
    exact hs.replace_same hcall ⟨rfl, rfl, rfl, rfl, rfl⟩ hobeys (fun _ => rfl)
      (fun j _ hj => by rw [hfree] at hj; cases hj) rfl (hkept fun _ h => by cases h)
  | unlocked hlocks hrow =>
    exact hs.replace_same hcall ⟨rfl, rfl, rfl, rfl, rfl⟩ hobeys (fun h => by cases h)
      (hreleased hlocks) trivial (hkept fun _ h => by cases h)
  | renewed =>
    have hstopped : s.host.isRunning = false := hown
    have hcancelled : ∀ token, token ∈ s.host.cancelled ∨
        s.host.isRunning = true ∧ s.host.shutdownToken = token → token ∈ s.host.cancelled :=
      fun token h => h.resolve_right fun h => by rw [hstopped] at h; cases h.1
    refine hs.replace hcall ⟨Nat.lt_succ_self _, fun token loop hmem =>
      Nat.lt_succ_of_lt (hs.tidy.issued token loop hmem), fun token loop hmem =>
      .inl (hcancelled token (hs.tidy.live token loop hmem)), hs.tidy.distinct⟩ hobeys
      (fun _ => hheld rfl) (fun _ _ h => h) ⟨hstopped, rfl, fun loop hmem =>
        Nat.lt_irrefl _ (hs.tidy.issued _ loop hmem)⟩ (fun j other hne hj hothers => ?_)
      (Nat.le_succ _) fun token h => ?_
    · obtain ⟨hfree, hfits⟩ := halone rfl j other hne hj hothers
      exact hfits.unlocked hfree rfl fun token h => .inl (hcancelled token h)
    · cases h
      exact .inr ⟨rfl, Nat.lt_succ_self _⟩
  | registered token info | registerFailed token info hfault =>
    exact hs.replace_same hcall ⟨rfl, rfl, rfl, rfl, rfl⟩ hobeys (fun _ => hheld rfl)
      (fun _ _ h => h) hown (hkept fun _ h => h)
  | published id hready =>
    obtain ⟨hlocks, htoken, hstopped, hcurrent, hnone⟩ := hown.ready hready
    have hcancelled : ∀ token, token ∈ s.host.cancelled ∨
        s.host.isRunning = true ∧ s.host.shutdownToken = token → token ∈ s.host.cancelled :=
      fun token h => h.resolve_right fun h => by rw [hstopped] at h; cases h.1
    refine hs.replace hcall ⟨hs.tidy.current, hs.tidy.issued, fun token loop hmem =>
      .inl (hcancelled token (hs.tidy.live token loop hmem)), hs.tidy.distinct⟩ hobeys
      (fun h => by cases h) (hreleased hlocks) ⟨.inr ⟨rfl, hcurrent⟩, fun loop hmem =>
        absurd hmem (hnone loop)⟩ (fun j other hne hj hothers => ?_) le_rfl
      (fun _ h => .inl (hphase ▸ htoken.trans h))
    obtain ⟨hfree, hfits⟩ := halone hlocks j other hne hj hothers
    exact hfits.unlocked hfree rfl fun token h => .inl (hcancelled token h)
  | @spawned token before loop hnew =>
    have hissued := hs.issued i call token hcall (congrArg CallPhase.token hphase)
    refine hs.replace hcall (hs.tidy.spawn hown hissued (List.nodup_singleton loop)
      fun l hl => List.mem_singleton.mp hl ▸ hnew) hobeys (fun h => by cases h) (fun _ _ h => h)
      ⟨hown.1, fun l hmem => ?_⟩ (fun j other hne hj hothers =>
        (hs.fits j other hj hothers).spawn (hstrange j other hne hj rfl)) le_rfl
      fun _ h => .inl (hkept (fun _ h => h) _ h)
    rcases Host.mem_spawn.mp hmem with hmem | ⟨-, hl⟩
    · exact List.mem_cons_of_mem _ (hown.2 l hmem)
    · exact List.mem_cons.mpr (.inl (List.mem_singleton.mp hl))
  | kept token before handle =>
    exact hs.replace_same hcall ⟨rfl, rfl, rfl, rfl, rfl⟩ hobeys hheld (fun _ _ h => h) hown
      (hkept fun _ h => h)
  | @staffed token before workers hnodup hnew =>
    have hissued := hs.issued i call token hcall (congrArg CallPhase.token hphase)
    have htidy := hs.tidy.spawn hown hissued hnodup hnew
    exact hs.replace hcall ⟨htidy.current, htidy.issued, htidy.live, htidy.distinct⟩ hobeys
      (fun h => by cases h) (fun _ _ h => h) trivial (fun j other hne hj hothers =>
        Host.Same.fits (h := s.host.spawn workers token) ⟨rfl, rfl, rfl, rfl, rfl⟩
          ((hs.fits j other hj hothers).spawn (hstrange j other hne hj rfl))) le_rfl
      fun _ h => by cases h
  | shutDown =>
    have hrunning : s.host.isRunning = true := hown
    have hcancelled : ∀ token, token ∈ s.host.cancelled ∨
        s.host.isRunning = true ∧ s.host.shutdownToken = token →
          token ∈ s.host.shutdownToken :: s.host.cancelled := fun token h =>
      List.mem_cons.mpr (h.symm.imp_left fun h => h.2.symm)
    refine hs.replace hcall ⟨hs.tidy.current, hs.tidy.issued, fun token loop hmem =>
      .inl (hcancelled token (hs.tidy.live token loop hmem)), hs.tidy.distinct⟩ hobeys
      (fun h => by cases h) (hreleased rfl) trivial (fun j other hne hj hothers => ?_) le_rfl
      fun _ h => by cases h
    obtain ⟨hfree, hfits⟩ := halone rfl j other hne hj hothers
    exact hfits.unlocked hfree rfl fun token h => .inl (hcancelled token h)
  | tookId hleft =>
    cases hid : s.host.serverId with
    | none | some id =>
      rw [hid] at hleft
      subst hleft
      exact hs.replace_same hcall ⟨rfl, rfl, rfl, rfl, rfl⟩ hobeys (fun h => by cases h)
        (fun _ _ h => h) trivial (hkept fun _ h => by cases h)
  | deregistered id | deregisterFailed id hfault | tookHandles | joined hended =>
    exact hs.replace_same hcall ⟨rfl, rfl, rfl, rfl, rfl⟩ hobeys (fun h => by cases h)
      (fun _ _ h => h) trivial (hkept fun _ h => by cases h)
  | aborted handles =>
    exact hs.replace_same hcall ⟨rfl, rfl, rfl, rfl, Host.spawned_abortAll s.host handles⟩ hobeys
      (fun h => by cases h) (fun _ _ h => h) trivial (hkept fun _ h => by cases h)

/-- What happens to a loop, or to the rows of the registry, keeps all of it. -/
theorem Sound.aside (hs : Sound s) (hsame : Host.Same s.host host)
    (hwriter : host.writer = s.host.writer) : Sound { s with host := host } where
  tidy := hsame.tidy hs.tidy
  obeys := hs.obeys
  locked := fun j other hj halive hlocks => hwriter ▸ hs.locked j other hj halive hlocks
  fits := fun j other hj halive => hsame.fits (hs.fits j other hj halive)
  issued := fun j other token hj htoken => hsame.tokens ▸ hs.issued j other token hj htoken
  apart := hs.apart

theorem Sound.abandon (hs : Sound s) (hcall : s.calls[i]? = some call) :
    Sound (s.abandon i call) where
  tidy := Host.Same.tidy (h := s.host) ⟨rfl, rfl, rfl, rfl, rfl⟩ hs.tidy
  obeys := by
    intro j other hj
    rcases set_cases hj with ⟨-, rfl⟩ | ⟨-, hj⟩
    · exact hs.obeys i call hcall
    · exact hs.obeys j other hj
  locked := by
    intro j other hj halive hlocks
    rcases set_cases hj with ⟨-, rfl⟩ | ⟨hne, hj⟩
    · cases halive
    · have hwriter := hs.locked j other hj halive hlocks
      have hother : s.host.writer ≠ some i := by
        rw [hwriter]
        exact fun he => hne (Option.some.inj he)
      simp only [ServerSite.abandon, if_neg hother]
      exact hwriter
  fits := by
    intro j other hj halive
    rcases set_cases hj with ⟨-, rfl⟩ | ⟨-, hj⟩
    · cases halive
    · exact Host.Same.fits (h := s.host) ⟨rfl, rfl, rfl, rfl, rfl⟩ (hs.fits j other hj halive)
  issued := by
    intro j other token hj htoken
    rcases set_cases hj with ⟨-, rfl⟩ | ⟨-, hj⟩
    · exact hs.issued i call token hcall htoken
    · exact hs.issued j other token hj htoken
  apart := by
    have hold : ∀ {j : Nat} {other : HostCall}, (s.abandon i call).calls[j]? = some other →
        ∃ was, s.calls[j]? = some was ∧ was.phase = other.phase := by
      intro j other hj
      rcases set_cases hj with ⟨rfl, rfl⟩ | ⟨-, hj⟩
      · exact ⟨call, hcall, rfl⟩
      · exact ⟨other, hj, rfl⟩
    intro j k a b token hj hk ha hb
    obtain ⟨a', hj', hphase⟩ := hold hj
    obtain ⟨b', hk', hphase'⟩ := hold hk
    exact hs.apart j k a' b' token hj' hk' (hphase ▸ ha) (hphase' ▸ hb)

theorem Sound.setTask (hs : Sound s) {j : Nat} {task : LoopTask}
    (htask : s.host.tasks[j]? = some task) (state : LoopState) :
    Sound (s.setTask j { task with state := state }) :=
  hs.aside ⟨rfl, rfl, rfl, rfl, Host.spawned_setTask htask state⟩ rfl

theorem Sound.acts (hs : Sound s) {ρ : Type} {op : LifecycleCall ρ}
    {k : ρ → Prog LifecycleCall (Except QmlError Unit)} {reply : ρ} {draw : HostDraw}
    (hcall : s.calls[i]? = some call) (hprogram : call.program = .call op k)
    (hperform : s.host.perform draw i op = some (reply, host)) :
    Host.Acts draw i s.host op call.phase host (call.phase.after op reply) ∧
      Lifecycle.Obeys (k reply) (call.phase.after op reply) := by
  have hobeys := hs.obeys i call hcall
  rw [hprogram] at hobeys
  obtain ⟨hpermits, hrest⟩ := Lifecycle.wp_rules.mp hobeys
  exact ⟨Host.perform_acts hpermits hperform, hrest reply⟩

theorem Sound.next (hs : Sound s) (h : Next config s e t) : Sound t := by
  cases next_moves h with
  | entered hobeys => exact hs.enter hobeys
  | called hcall halive hprogram hperform =>
    obtain ⟨hacts, hobeys⟩ := hs.acts hcall hprogram hperform
    exact hs.called hcall halive hacts hobeys
  | dropped hcall => exact hs.abandon hcall
  | began htask hstate hlive => exact hs.setTask htask _
  | rested htask hstate => exact hs.setTask htask _
  | finished htask => exact hs.setTask htask _
  | beaten j id now =>
    rw [Host.beat_eq]
    exact hs.aside ⟨rfl, rfl, rfl, rfl, rfl⟩ rfl
  | beatRead j id now =>
    rw [Host.readBeat_eq]
    exact hs.aside ⟨rfl, rfl, rfl, rfl, rfl⟩ rfl
  | reclaimed | beatWritten => exact hs.aside ⟨rfl, rfl, rfl, rfl, rfl⟩ rfl

theorem sound_new : Sound new where
  tidy :=
    { current := Nat.zero_lt_one
      issued := fun _ _ h => absurd h List.not_mem_nil
      live := fun _ _ h => absurd h List.not_mem_nil
      distinct := List.nodup_nil }
  obeys := fun i _ h => by simp [new] at h
  locked := fun i _ h => by simp [new] at h
  fits := fun i _ h => by simp [new] at h
  issued := fun i _ _ h => by simp [new] at h
  apart := fun i _ _ _ _ h => by simp [new] at h

theorem sound_run {tr : List (Step ServerSite Event)} (hr : Run (Next config) new tr s) :
    Sound s := by
  refine hr.stable Sound sound_new fun x hx hbefore => ?_
  obtain ⟨_, -, -, hnext⟩ := hr.of_mem hx
  exact hbefore.next hnext

/-- Tokens stay cancelled, and loops keep their place. -/
def Grows (h h' : Host) : Prop :=
  (∀ token ∈ h.cancelled, token ∈ h'.cancelled) ∧ h.spawned <+: h'.spawned

theorem Grows.same {h h' : Host} (hsame : Host.Same h h') : Grows h h' :=
  ⟨fun _ hmem => hsame.cancelled ▸ hmem, hsame.spawned ▸ List.prefix_rfl⟩

theorem grows_acts {draw : HostDraw} {ρ : Type} {op : LifecycleCall ρ} {before : CallPhase}
    {h h' : Host}
    (hacts : Host.Acts draw i h op before h' phase) : Grows h h' := by
  cases hacts with
  | spawned hnew =>
    exact ⟨fun _ hmem => hmem, Host.spawned_spawn h _ _ ▸ List.prefix_append ..⟩
  | staffed hnodup hnew =>
    exact ⟨fun _ hmem => hmem, Host.spawned_spawn h _ _ ▸ List.prefix_append ..⟩
  | shutDown => exact ⟨fun _ hmem => List.mem_cons_of_mem _ hmem, List.prefix_rfl⟩
  | aborted handles => exact ⟨fun _ hmem => hmem, Host.spawned_abortAll h handles ▸ List.prefix_rfl⟩
  | idle | locked | unlocked | renewed | registered | registerFailed | published | kept | tookId |
    deregistered | deregisterFailed | tookHandles | joined =>
    exact ⟨fun _ hmem => hmem, List.prefix_rfl⟩

theorem Sound.grows (hs : Sound s) (h : Next config s e t) : Grows s.host t.host := by
  cases next_moves h with
  | called hcall halive hprogram hperform => exact grows_acts (hs.acts hcall hprogram hperform).1
  | began htask hstate hlive => exact .same ⟨rfl, rfl, rfl, rfl, Host.spawned_setTask htask _⟩
  | rested htask hstate => exact .same ⟨rfl, rfl, rfl, rfl, Host.spawned_setTask htask _⟩
  | finished htask => exact .same ⟨rfl, rfl, rfl, rfl, Host.spawned_setTask htask _⟩
  | beaten j id now =>
    rw [Host.beat_eq]
    exact .same ⟨rfl, rfl, rfl, rfl, rfl⟩
  | beatRead j id now =>
    rw [Host.readBeat_eq]
    exact .same ⟨rfl, rfl, rfl, rfl, rfl⟩
  | entered | dropped | reclaimed | beatWritten => exact .same ⟨rfl, rfl, rfl, rfl, rfl⟩

theorem Grows.trans {h h' h'' : Host} (hfirst : Grows h h') (hsecond : Grows h' h'') :
    Grows h h'' :=
  ⟨fun token hmem => hsecond.1 token (hfirst.1 token hmem), hfirst.2.trans hsecond.2⟩

section
variable {tr pre mid post : List (Step ServerSite Event)} {x y : Step ServerSite Event} {j k : Nat}
  {a b : LoopTask}

theorem mem_spawned {h : Host} (htask : h.tasks[j]? = some a) : (a.token, a.loop) ∈ h.spawned :=
  List.mem_map.mpr ⟨a, List.mem_of_getElem? htask, rfl⟩

/-- A loop whose token is not cancelled is one of the running server. -/
theorem Sound.running (hs : Sound s) (htask : s.host.tasks[j]? = some a)
    (hlive : a.token ∉ s.host.cancelled) :
    s.host.isRunning = true ∧ a.token = s.host.shutdownToken := by
  obtain ⟨hrunning, hcurrent⟩ :=
    (hs.tidy.live a.token a.loop (mem_spawned htask)).resolve_left hlive
  exact ⟨hrunning, hcurrent.symm⟩

theorem of_begin (h : Next config s (.begin j) t) :
    ∃ task, s.host.tasks[j]? = some task ∧ task.token ∉ s.host.cancelled := by
  simp only [Next, next] at h
  split at h
  · rename_i loop token htask
    split at h
    · cases h
    · rename_i hlive
      exact ⟨_, htask, hlive⟩
  · cases h

/-- The tokens of the loops that were there already are those they had. -/
theorem Grows.token {h h' : Host} (hgrows : Grows h h') (hj : j < h.tasks.length)
    (htask : h'.tasks[j]? = some a) : (a.token, a.loop) ∈ h.spawned := by
  obtain ⟨later, hlater⟩ := hgrows.2
  have hmark : h'.spawned[j]? = some (a.token, a.loop) := by
    rw [Host.spawned, List.getElem?_map, htask, Option.map_some]
  have hlength : j < h.spawned.length := by
    rw [Host.spawned, List.length_map]
    exact hj
  rw [← hlater, List.getElem?_append_left hlength] at hmark
  exact List.mem_of_getElem? hmark

/-- A loop that the server has been told to end begins no round any more. -/
theorem stopped_for_good (hr : Run (Next config) new (pre ++ x :: (mid ++ y :: post)) s)
    (hstopped : x.after.host.isRunning = false) (hbegin : y.label = .begin j) :
    x.after.host.tasks.length ≤ j := by
  obtain ⟨hpre, hx, hrest⟩ := hr.around
  obtain ⟨hmid, hy, -⟩ := hrest.around
  have hsound : Sound x.after := (sound_run hpre).next hx
  have hgrows : Sound y.before ∧ Grows x.after.host y.before.host := by
    refine hmid.stable (fun u => Sound u ∧ Grows x.after.host u.host)
      ⟨hsound, .same ⟨rfl, rfl, rfl, rfl, rfl⟩⟩ fun z hz hbefore => ?_
    obtain ⟨_, -, -, hz⟩ := hmid.of_mem hz
    exact ⟨hbefore.1.next hz, hbefore.2.trans (hbefore.1.grows hz)⟩
  rw [hbegin] at hy
  obtain ⟨task, htask, hlive⟩ := of_begin hy
  by_contra hlt
  have hmem := hgrows.2.token (Nat.lt_of_not_le hlt) htask
  rcases hsound.tidy.live _ _ hmem with hcancelled | ⟨hrunning, -⟩
  · exact hlive (hgrows.2.1 _ hcancelled)
  · rw [hstopped] at hrunning
    cases hrunning

/-- However calls of `start` and `stop` overlap, and wherever they are dropped, the loops that
may still begin a round are all of the last `start`, and no two of them are the same. Once a
`stop` has taken effect the loops that are there begin no other round. -/
theorem one_generation_at_work (hr : Run (Next config) new tr s) :
    (∀ (j k : Nat) (a b : LoopTask), s.host.tasks[j]? = some a → s.host.tasks[k]? = some b →
      a.token ∉ s.host.cancelled → b.token ∉ s.host.cancelled → a.loop = b.loop → j = k) ∧
    (∀ x ∈ tr, ∀ j, x.label = .begin j → x.before.host.isRunning = true ∧
      (x.before.host.tasks[j]?).map LoopTask.token = some x.before.host.shutdownToken) ∧
    ∀ pre x mid y post j, tr = pre ++ x :: (mid ++ y :: post) →
      x.after.host.isRunning = false → y.label = .begin j → x.after.host.tasks.length ≤ j := by
  refine ⟨fun j k a b ha hb hlive hlive' hloop => ?_, fun x hx j hbegin => ?_,
    fun pre x mid y post j hcut hstopped hbegin => ?_⟩
  · have hs := sound_run hr
    have htoken : a.token = b.token :=
      (hs.running ha hlive).2.trans (hs.running hb hlive').2.symm
    exact index_eq hs.tidy.distinct ha hb (by rw [htoken, hloop])
  · obtain ⟨pre, -, hpre, hnext⟩ := hr.of_mem hx
    rw [hbegin] at hnext
    obtain ⟨task, htask, hlive⟩ := of_begin hnext
    obtain ⟨hrunning, hcurrent⟩ := (sound_run hpre).running htask hlive
    rw [htask, Option.map_some, hcurrent]
    exact ⟨hrunning, rfl⟩
  · subst hcut
    exact stopped_for_good hr hstopped hbegin

end

/-- A server with one worker and no other loop. -/
def single : StartConfig where
  toServerConfig := { ServerConfig.default with workerCount := 1, enableHeartbeat := true }
  enableScheduler := false
  enableRecurring := false
  enableCleanup := false

/-- Let a call go on for some steps. -/
def Event.steps (i n : Nat) : List Event :=
  List.replicate n (.step i ⟨0, toString i, .ok 0, none, false⟩)

/-- The server is started again while the `stop` before is still in the middle of its work. -/
def overtaken : List Event :=
  [.start] ++ Event.steps 0 11 ++ [.begin 0, .stop] ++ Event.steps 1 2 ++ [.start] ++
    Event.steps 2 11 ++ [.begin 2] ++ Event.steps 1 3

theorem one_generation_at_work_overtaken : ∃ tr s, Run (Next single) new tr s ∧
    tr.length = overtaken.length ∧
    (∀ (j k : Nat) (a b : LoopTask), s.host.tasks[j]? = some a → s.host.tasks[k]? = some b →
      a.token ∉ s.host.cancelled → b.token ∉ s.host.cancelled → a.loop = b.loop → j = k) ∧
    (∀ x ∈ tr, ∀ j, x.label = .begin j → x.before.host.isRunning = true ∧
      (x.before.host.tasks[j]?).map LoopTask.token = some x.before.host.shutdownToken) ∧
    ∀ pre x mid y post j, tr = pre ++ x :: (mid ++ y :: post) →
      x.after.host.isRunning = false → y.label = .begin j → x.after.host.tasks.length ≤ j := by
  obtain ⟨s, hr⟩ := replay_run (next single) new overtaken
  exact ⟨_, s, hr, by decide +kernel, one_generation_at_work hr⟩

end ServerSite
end Qml
