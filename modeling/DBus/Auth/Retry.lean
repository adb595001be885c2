/-
  `_dbus_auth_do_work`, called again until it no longer waits for memory.

  A command for which there is no memory is left where it was (`Leftover`): processed again,
  it does what it would have done, provided that the allocation that failed is one of those
  that may.  `RunMild` says so of every command of a run.
-/
import DBus.Auth.Recover

namespace DBus

open Alloc

/-! ## Runs that try again -/

/-- `_dbus_auth_do_work`, until it no longer waits for memory, at most `n` times more. -/
def retryWork (env : ℕ → AuthEnv) : ℕ → DBusAuth → Alloc Stop DBusAuth
  | 0, auth => forget >>= fun _ => doWork env auth
  | n + 1, auth => do
    forget
    let auth ← doWork env auth
    if auth.neededMemory then retryWork env n auth else pure auth

/-- Every time it waits for memory, an allocation has failed. -/
def retry (env : ℕ → AuthEnv) (auth : DBusAuth) : Alloc Stop DBusAuth := fun a =>
  retryWork env a.fails.length auth a

/-- `authRun`, with every call of `_dbus_auth_do_work` repeated until it has its memory. -/
def authRetry : List AuthEvent → DBusAuth → Alloc Stop DBusAuth
  | [], auth => pure auth
  | .received bytes :: es, auth => authRetry es (auth.received bytes)
  | .sent n :: es, auth => authRetry es (auth.bytesSent n)
  | .work env :: es, auth => do
    let auth ← retry env auth
    authRetry es auth

/-- If an allocation of the command fails, it is one that may. -/
def CommandMild (env : AuthEnv) (auth : DBusAuth) (a : Allocator) : Prop :=
  (processCommand env auth a).2.failed = true → ∃ n, a.firstFailure = some n ∧ commandMayFail env auth n

def WorkMild (env : ℕ → AuthEnv) : ℕ → DBusAuth → Allocator → Prop
  | 0, _, _ => True
  | fuel + 1, auth, a => Waits auth → CommandMild (env auth.incoming.length) auth a ∧
    ∀ auth' a', processCommand (env auth.incoming.length) auth a = (.ok (true, auth'), a') →
      WorkMild env fuel auth' a'

def RetryMild (env : ℕ → AuthEnv) : ℕ → DBusAuth → Allocator → Prop
  | 0, auth, a => WorkMild env (auth.incoming.length + 1) { auth with neededMemory := false } ⟨a.fails, false⟩
  | n + 1, auth, a =>
    WorkMild env (auth.incoming.length + 1) { auth with neededMemory := false } ⟨a.fails, false⟩ ∧
      ∀ auth' a', doWork env auth ⟨a.fails, false⟩ = (.ok auth', a') → auth'.neededMemory = true →
        RetryMild env n auth' a'

/-- In every command of a run, if an allocation fails, it is one that may. -/
def RunMild : List AuthEvent → DBusAuth → Allocator → Prop
  | [], _, _ => True
  | .received bytes :: es, auth, a => RunMild es (auth.received bytes) a
  | .sent n :: es, auth, a => RunMild es (auth.bytesSent n) a
  | .work env :: es, auth, a => RetryMild env a.fails.length auth a ∧
    ∀ auth' a', retry env auth a = (.ok auth', a') → RunMild es auth' a'

/-! ## What is left over -/

variable {auth auth' leaf : DBusAuth} {a : Allocator} {env : AuthEnv}

/-- `leaf` is what attempts at the first command of `auth` have left. -/
structure Leftover (env : ℕ → AuthEnv) (auth leaf : DBusAuth) : Prop where
  again : processCommand (env auth.incoming.length) leaf .plenty =
    processCommand (env auth.incoming.length) auth .plenty
  shell : Shell auth leaf
  waits : leaf = auth ∨ Waits auth

theorem leftover_refl (env : ℕ → AuthEnv) (auth : DBusAuth) : Leftover env auth auth :=
  ⟨rfl, shell_refl auth, .inl rfl⟩

theorem Shell.trans {leaf' : DBusAuth} (h : Shell auth leaf) (h' : Shell leaf leaf') :
    Shell auth leaf' :=
  ⟨h'.side.trans h.side, h'.state.trans h.state, h'.incoming.trans h.incoming,
    h'.outgoing.trans h.outgoing, h'.neededMemory.trans h.neededMemory,
    h'.allowedMechs.trans h.allowedMechs, fun hm => h'.mechs (h.mechs hm)⟩

theorem Shell.waits (h : Shell auth leaf) : Waits leaf ↔ Waits auth := by
  rw [Waits, Waits, h.state, h.incoming, h.outgoing]

/-- What is left of a conversation that lasts. -/
structure Lasting (auth : DBusAuth) : Prop where
  ok : AuthOk auth
  mechs : MechsTidy auth
  neededMemory : auth.neededMemory = false

/-! ## One call -/

theorem Lasting.buffers (h : Lasting auth) (incoming outgoing : List UInt8) :
    Lasting { auth with incoming := incoming, outgoing := outgoing } :=
  ⟨h.ok.buffers incoming outgoing auth.neededMemory, h.mechs, h.neededMemory⟩

theorem mechsTidy_move {line : List UInt8} (hok : AuthOk auth) (h : MechsTidy auth)
    (hm : AuthMove env auth line auth') : MechsTidy auth' := by
  rcases hok with hok | hok
  · rw [AuthMove, hok.side] at hm
    cases hm with
    | rejected => rw [DBusAuth.reject_eq]; exact h
    | data m data _ hrs hdt =>
      cases hdt with
      | rejected => rw [DBusAuth.reject_eq]; exact h
      | _ => exact h
    | _ => exact h
  · rw [AuthMove, hok.side] at hm
    cases hm with
    | answered _ _ _ _ han => cases han <;> exact h
    | retried m rest =>
      rw [DBusAuth.tryMech, DBusAuth.shutdownMech_eq]
      rintro ⟨⟩
    | gaveUp => rintro ⟨⟩
    | _ => exact h

theorem processCommand_returns (h : Lasting auth) (hw : Waits auth) {r : Bool × DBusAuth}
    (hr : processCommand env auth .plenty = (.ok r, .plenty)) : r = (false, auth) ∨
      ∃ auth', r = (true, auth') ∧ Lasting auth' ∧ auth'.incoming.length < auth.incoming.length := by
  have hl : Lands Stop.assertion (HeadFine auth) (processCommand env auth) (Round env auth) :=
    processCommand_lands h.ok hw.1
  by_cases hfn : HeadFine auth
  · obtain ⟨b, hb, hrn⟩ := hl.returns hfn
    obtain rfl : b = r := by
      rw [hb] at hr
      cases hr
      rfl
    rcases hrn with ⟨-, hr⟩ | ⟨eol, auth', hel, hm, hr⟩
    · exact .inl hr
    · have hlt := findEol_lt hel
      have hmc : MechsTidy auth' := mechsTidy_move h.ok h.mechs hm
      refine .inr ⟨_, hr, ⟨(authOk_move h.ok hw.1 hm).buffers _ auth'.outgoing false, hmc, rfl⟩, ?_⟩
      rw [DBusAuth.dropLine, hm.incoming h.ok, List.length_drop]
      omega
  · simp [hl.stops hfn] at hr

theorem workLoop_regular (env : ℕ → AuthEnv) : ∀ (fuel : ℕ) (auth : DBusAuth),
    Regular (workLoop env fuel auth)
  | 0, _ => regular_lift
  | fuel + 1, _ => .ite regular_pure (.ite regular_pure
      ((processCommand_regular _ _).bind fun _ => .ite (workLoop_regular env fuel _) regular_pure))

theorem processCommand_plenty (env : AuthEnv) (auth : DBusAuth) : processCommand env auth .plenty =
    ((processCommand env auth .plenty).1, .plenty) :=
  Prod.ext rfl (processCommand_regular env auth).plenty

theorem workLoop_waits (env : ℕ → AuthEnv) (fuel : ℕ) (hw : Waits auth) :
    workLoop env (fuel + 1) auth = processCommand (env auth.incoming.length) auth >>= fun r =>
      if r.1 then workLoop env fuel r.2 else pure r.2 := by
  obtain ⟨hend, hin, ho⟩ := hw
  rw [workLoop, hend, if_neg (by decide), if_neg (by omega)]

theorem workLoop_still (env : ℕ → AuthEnv) (hl : Lasting auth) (hw : ¬ Waits auth) :
    ∃ s, Lasting s ∧ ∀ fuel a, workLoop env (fuel + 1) auth a = (.ok s, a) := by
  cases hend : auth.state.inEndState with
  | true =>
    refine ⟨auth, hl, fun fuel a => ?_⟩
    rw [workLoop, if_pos hend]
    rfl
  | false =>
    have hb : auth.incoming.length > maxBuffer ∨ auth.outgoing.length > maxBuffer := by
      by_contra hno
      exact hw ⟨hend, by omega, by omega⟩
    have hm : MechsTidy auth := hl.mechs
    refine ⟨auth.gotoState .needDisconnect, ⟨hl.ok.disconnect hend, hm, hl.neededMemory⟩,
      fun fuel a => ?_⟩
    rw [workLoop, hend, if_neg (by decide), if_pos hb]
    rfl

theorem workLoop_fuel (env : ℕ → AuthEnv) : ∀ (n m : ℕ) (auth : DBusAuth), Lasting auth →
    auth.incoming.length < n → auth.incoming.length < m →
    workLoop env n auth .plenty = workLoop env m auth .plenty
  | 0, _, _, _, hn, _ => absurd hn (Nat.not_lt_zero _)
  | _ + 1, 0, _, _, _, hm => absurd hm (Nat.not_lt_zero _)
  | n + 1, m + 1, auth, hl, hn, hm => by
    by_cases hw : Waits auth
    · rw [workLoop_waits env n hw, workLoop_waits env m hw]
      have hp := processCommand_plenty (env auth.incoming.length) auth
      cases ho : (processCommand (env auth.incoming.length) auth .plenty).1 with
      | error e =>
        rw [ho] at hp
        rw [bind_of_error hp, bind_of_error hp]
      | ok r =>
        rw [ho] at hp
        rw [bind_of_ok hp, bind_of_ok hp]
        rcases processCommand_returns hl hw hp with rfl | ⟨auth', rfl, hl', hlt⟩
        · rfl
        · exact workLoop_fuel env n m auth' hl' (by omega) (by omega)
    · obtain ⟨s, -, hs⟩ := workLoop_still env hl hw
      rw [hs, hs]

/-- How a call ends that without failures would end with `out`: it does, or it waits for
    memory with a rest from which it would. -/
def CallEnds (env : ℕ → AuthEnv) (out : Except Stop DBusAuth) (r : Except Stop DBusAuth × Allocator) :
    Prop :=
  (r.2.failed = false ∧ r.1 = out ∧ ∀ s, out = .ok s → Lasting s) ∨
    (r.2.failed = true ∧ ∃ auth leaf, r.1 = .ok leaf ∧ leaf.neededMemory = true ∧ Lasting auth ∧
      Leftover env auth { leaf with neededMemory := false } ∧ out = (doWork env auth .plenty).1)

theorem workLoop_ends (env : ℕ → AuthEnv) : ∀ (fuel : ℕ) (auth leaf : DBusAuth) (a : Allocator),
    Lasting auth → Leftover env auth leaf → auth.incoming.length < fuel → a.failed = false →
    WorkMild env fuel leaf a →
    CallEnds env (workLoop env fuel auth .plenty).1 (workLoop env fuel leaf a)
  | 0, _, _, _, _, _, hfu, _, _ => absurd hfu (Nat.not_lt_zero _)
  | fuel + 1, auth, leaf, a, hl, ht, hfu, ha, hm => by
    by_cases hw : Waits auth
    · have hlen : leaf.incoming.length = auth.incoming.length := by rw [ht.shell.incoming]
      obtain ⟨hcm, hnx⟩ := hm (ht.shell.waits.2 hw)
      rw [hlen] at hcm hnx
      rw [workLoop_waits env fuel hw, workLoop_waits env fuel (ht.shell.waits.2 hw), hlen]
      rcases ho : processCommand (env auth.incoming.length) leaf a with ⟨out, a'⟩
      have hrg := processCommand_regular (env auth.incoming.length) leaf
      have hsf := hrg.outcome a ha
      rw [CommandMild, ho] at hcm
      rw [ho] at hsf
      cases hfl : a'.failed with
      | false =>
        -- no allocation failed: the command does what it does with plenty of memory
        have hp : processCommand (env auth.incoming.length) auth .plenty = (out, .plenty) := by
          rw [← ht.again]
          exact Prod.ext (hsf hfl).symm hrg.plenty
        cases out with
        | error e =>
          rw [bind_of_error hp, bind_of_error ho]
          exact .inl ⟨hfl, rfl, fun _ h => (nomatch h)⟩
        | ok r =>
          rw [bind_of_ok hp, bind_of_ok ho]
          rcases processCommand_returns hl hw hp with rfl | ⟨auth', rfl, hl', hlt⟩
          · refine .inl ⟨hfl, rfl, fun s hs => ?_⟩
            cases hs
            exact hl
          · exact workLoop_ends env fuel auth' auth' a' hl' (leftover_refl env auth') (by omega) hfl
              (hnx auth' a' ho)
      | true =>
        obtain ⟨n, hn, hmy⟩ := hcm hfl
        have hrt := processCommand_retries (ht.shell.mechs hl.mechs)
          (ht.shell.neededMemory.trans hl.neededMemory) a n ha hn hmy
        rw [ho] at hrt
        obtain ⟨⟨ok, leaf'⟩, rfl, ⟨rfl : ok = false, hnd, hag, hsh⟩⟩ := hrt hfl
        rw [bind_of_ok ho]
        refine .inr ⟨hfl, auth, leaf', rfl, hnd, hl,
          ⟨hag.trans ht.again, ht.shell.trans hsh, .inr hw⟩, ?_⟩
        rw [← workLoop_waits env fuel hw, doWork, withoutNeed_eq hl.neededMemory,
          workLoop_fuel env _ _ auth hl hfu (Nat.lt_succ_self _)]
    · obtain rfl := ht.waits.resolve_right hw
      obtain ⟨s, hls, hs⟩ := workLoop_still env hl hw
      rw [hs, hs]
      refine .inl ⟨ha, rfl, fun s' h => ?_⟩
      cases h
      exact hls

/-! ## Calls until there is memory -/

variable {env : ℕ → AuthEnv}

theorem doWork_ends (hl : Lasting auth)
    (ht : Leftover env auth { leaf with neededMemory := false }) (ha : a.failed = false)
    (hm : WorkMild env (leaf.incoming.length + 1) { leaf with neededMemory := false } a) :
    CallEnds env (doWork env auth .plenty).1 (doWork env leaf a) := by
  have hlen : leaf.incoming.length = auth.incoming.length := by rw [← ht.shell.incoming]
  rw [hlen] at hm
  have hen := workLoop_ends env _ auth _ a hl ht (Nat.lt_succ_self _) ha hm
  rw [doWork, withoutNeed_eq hl.neededMemory, doWork, hlen]
  exact hen

theorem forget_bind {β : Type} (f : Unit → Alloc Stop β) (a : Allocator) :
    (forget >>= f) a = f () ⟨a.fails, false⟩ := rfl

theorem retryWork_same : ∀ (n : ℕ) (auth leaf : DBusAuth) (a : Allocator),
    Lasting auth → Leftover env auth { leaf with neededMemory := false } → a.fails.length ≤ n →
    RetryMild env n leaf a → (retryWork env n leaf a).1 = (doWork env auth .plenty).1 ∧
      ∀ s, (doWork env auth .plenty).1 = .ok s → Lasting s
  | 0, auth, leaf, a, hl, ht, hn, hm => by
    have hen : CallEnds env _ (doWork env leaf ⟨a.fails, false⟩) := doWork_ends hl ht rfl hm
    rcases hen with ⟨-, ho, hls⟩ | ⟨hfl, -⟩
    · exact ⟨ho, hls⟩
    · -- there is no allocation that could fail
      have hsp := (workLoop_regular env (leaf.incoming.length + 1)
        { leaf with neededMemory := false }).spends ⟨a.fails, false⟩ rfl hfl
      dsimp only at hsp
      omega
  | n + 1, auth, leaf, a, hl, ht, hn, hm => by
    obtain ⟨hw, hnx⟩ := hm
    have hen : CallEnds env _ (doWork env leaf ⟨a.fails, false⟩) := doWork_ends hl ht rfl hw
    rw [retryWork, forget_bind]
    rcases ho : doWork env leaf ⟨a.fails, false⟩ with ⟨out, a'⟩
    rw [ho] at hen
    rcases hen with ⟨-, rfl, hls⟩ | ⟨hfl, auth', leaf', rfl, hnd, hl', ht', heq⟩
    · cases hdn : (doWork env auth .plenty).1 with
      | error e =>
        rw [hdn] at ho
        rw [bind_of_error ho]
        exact ⟨rfl, fun _ h => (nomatch h)⟩
      | ok s =>
        rw [hdn] at ho hls
        rw [bind_of_ok ho, (hls s rfl).neededMemory]
        exact ⟨rfl, hls⟩
    · have hsp := (workLoop_regular env (leaf.incoming.length + 1)
        { leaf with neededMemory := false }).spends ⟨a.fails, false⟩ rfl
      rw [show workLoop env (leaf.incoming.length + 1) { leaf with neededMemory := false }
        ⟨a.fails, false⟩ = _ from ho] at hsp
      have hlt : a'.fails.length < a.fails.length := hsp hfl
      rw [bind_of_ok ho, if_pos hnd, heq]
      exact retryWork_same n auth' leaf' a' hl' ht' (by omega) (hnx leaf' a' ho hnd)

/-! ## Whole conversations -/

theorem doWork_plenty (env : ℕ → AuthEnv) (auth : DBusAuth) :
    doWork env auth .plenty = ((doWork env auth .plenty).1, .plenty) :=
  Prod.ext rfl (workLoop_regular env _ _).plenty

theorem Fresh.lasting (h : Fresh auth) : Lasting auth := by
  refine ⟨h.authOk, ?_, ?_⟩ <;> cases h
  · exact fun _ => rfl
  · exact fun _ => rfl
  · rfl
  · rfl

theorem authRetry_eq_run : ∀ (es : List AuthEvent) (auth : DBusAuth) (a : Allocator), Lasting auth →
    RunMild es auth a → (authRetry es auth a).1 = (authRun es auth .plenty).1
  | [], _, _, _, _ => rfl
  | .received bytes :: es, auth, a, hl, hm =>
    authRetry_eq_run es (auth.received bytes) a (hl.buffers _ auth.outgoing) hm
  | .sent n :: es, auth, a, hl, hm =>
    authRetry_eq_run es (auth.bytesSent n) a (hl.buffers auth.incoming _) hm
  | .work env :: es, auth, a, hl, hm => by
    obtain ⟨hrt, hnx⟩ := hm
    have ht : Leftover env auth { auth with neededMemory := false } := by
      rw [withoutNeed_eq hl.neededMemory]
      exact leftover_refl env auth
    obtain ⟨hsm, hls⟩ := retryWork_same a.fails.length auth auth a hl ht (Nat.le_refl _) hrt
    have hsm : (retry env auth a).1 = (doWork env auth .plenty).1 := hsm
    have hp := doWork_plenty env auth
    rcases ho : retry env auth a with ⟨out, a'⟩
    rw [ho] at hsm
    rw [← hsm] at hp hls
    rw [authRetry, authRun]
    change (_ : Except Stop DBusAuth) = ((doWork env auth >>= authRun es) .plenty).1
    cases out with
    | error e => rw [bind_of_error ho, bind_of_error hp]
    | ok s =>
      rw [bind_of_ok ho, bind_of_ok hp]
      exact authRetry_eq_run es s a' (hls s rfl) (hnx s a' ho)

/-- **Want of memory**: of a new conversation, whatever the peer sends and whichever allocations
    fail, a run that calls `_dbus_auth_do_work` again until it has its memory ends as the run
    without failures does, provided that in every command only such allocations fail as may. -/
theorem authRetry_same (h : Fresh auth) (es : List AuthEvent) (a : Allocator)
    (hmild : RunMild es auth a) : (authRetry es auth a).1 = (authRun es auth .plenty).1 :=
  authRetry_eq_run es auth a h.lasting hmild

theorem workMild_plenty (env : ℕ → AuthEnv) : ∀ (fuel : ℕ) (auth : DBusAuth),
    WorkMild env fuel auth .plenty
  | 0, _ => trivial
  | fuel + 1, auth => by
    intro _
    have hp := (processCommand_regular (env auth.incoming.length) auth).plenty
    refine ⟨fun hfl => ?_, fun auth' a' ho => ?_⟩
    · rw [hp] at hfl
      cases hfl
    · rw [ho] at hp
      dsimp only at hp
      rw [hp]
      exact workMild_plenty env fuel auth'

def externalEvents (env : AuthEnv) : List AuthEvent := [.received externalLine, .work fun _ => env]

theorem authRetry_same_external : Fresh (.serverNew [] .empty none []) ∧
    RunMild (externalEvents .bare) (.serverNew [] .empty none []) ⟨[true], false⟩ ∧
    (authRetry (externalEvents .bare) (.serverNew [] .empty none []) ⟨[true], false⟩).1 =
      (authRun (externalEvents .bare) (.serverNew [] .empty none []) .plenty).1 := by
  have hfr : Fresh (.serverNew [] .empty none []) := .server [] .empty none []
  have hm : RunMild (externalEvents .bare) (.serverNew [] .empty none []) ⟨[true], false⟩ := by
    refine ⟨⟨fun _ => ⟨fun _ => ⟨0, rfl, trivial⟩, fun _ _ h => (nomatch h)⟩, ?_⟩, fun _ _ _ => trivial⟩
    intro auth' a' ho _
    cases ho
    exact workMild_plenty _ _ _
  exact ⟨hfr, hm, authRetry_same hfr _ _ hm⟩

/-- Without memory for the OK, the identity of the client stays behind; it is taken for a
    second one, and the client is rejected. -/
theorem identityStays_rejected : Fresh (.serverNew (asciiBytes "ab") rootCredentials none []) ∧
    (authRun (externalEvents rootEnv) (.serverNew (asciiBytes "ab") rootCredentials none [])
      .plenty).1.map DBusAuth.state = .ok .serverWaitingForBegin ∧
    (authRetry (externalEvents rootEnv) (.serverNew (asciiBytes "ab") rootCredentials none [])
      ⟨[false, false, false, false, false, false, false, true], false⟩).1.map DBusAuth.state =
      .ok .serverWaitingForAuth :=
  ⟨.server _ _ _ _, by decide +kernel, by decide +kernel⟩

end DBus
