/-
  Runs of an authentication conversation.

  What the transport does with a conversation is a list of events: bytes arrive, bytes have
  been sent, `_dbus_auth_do_work` is called.  `AuthMove` and `LineFine` put the two sides
  together; `authTrace_lands` says when a run trips an assertion and which invariants it keeps.
-/
import DBus.Auth.ClientMoves

namespace DBus

open Alloc DBusAuth

/-- What is done with a conversation. -/
inductive AuthEvent where
  | received (bytes : List UInt8)
  | sent (n : ℕ)
  | work (env : ℕ → AuthEnv)

def AuthEvent.run : AuthEvent → DBusAuth → Alloc Stop DBusAuth
  | .received bytes, auth => pure (auth.received bytes)
  | .sent n, auth => pure (auth.bytesSent n)
  | .work env, auth => doWork env auth

def authRun : List AuthEvent → DBusAuth → Alloc Stop DBusAuth
  | [], auth => pure auth
  | e :: es, auth => do
    let auth ← e.run auth
    authRun es auth

/-- A command that has been processed: what the system answered, its line, and the
    conversation before and after it. -/
structure Command where
  env : AuthEnv
  line : List UInt8
  before : DBusAuth
  after : DBusAuth

def DBusAuth.firstLine (auth : DBusAuth) : List UInt8 :=
  auth.incoming.take ((findEol auth.incoming).getD 0)

/-- `workLoop`, with the commands it processes. -/
def workTrace (env : ℕ → AuthEnv) : ℕ → List Command → DBusAuth → Alloc Stop (List Command × DBusAuth)
  | 0, _, _ => lift (.error .fuel)
  | fuel + 1, tr, auth =>
    if auth.state.inEndState then pure (tr, auth)
    else if auth.incoming.length > maxBuffer ∨ auth.outgoing.length > maxBuffer then
      pure (tr, auth.gotoState .needDisconnect)
    else do
      let (again, auth') ← processCommand (env auth.incoming.length) auth
      if again then
        workTrace env fuel (tr ++ [⟨env auth.incoming.length, auth.firstLine, auth, auth'⟩]) auth'
      else pure (tr, auth')

/-- `authRun`, with the commands that are processed. -/
def authTrace : List AuthEvent → List Command → DBusAuth → Alloc Stop (List Command × DBusAuth)
  | [], tr, auth => pure (tr, auth)
  | .received bytes :: es, tr, auth => authTrace es tr (auth.received bytes)
  | .sent n :: es, tr, auth => authTrace es tr (auth.bytesSent n)
  | .work env :: es, tr, auth => do
    let (tr, auth) ← workTrace env (auth.incoming.length + 1) tr { auth with neededMemory := false }
    authTrace es tr auth

theorem workLoop_eq_trace (env : ℕ → AuthEnv) : ∀ (fuel : ℕ) (tr : List Command) (auth : DBusAuth),
    workLoop env fuel auth = workTrace env fuel tr auth >>= fun r => pure r.2
  | 0, _, _ => rfl
  | fuel + 1, tr, auth => by
    rw [workLoop, workTrace]
    split
    · rfl
    split
    · rfl
    rw [bind_assoc]
    congr 1
    funext ⟨again, auth'⟩
    cases again with
    | false => rfl
    | true => exact workLoop_eq_trace env fuel _ auth'

theorem authRun_eq_trace : ∀ (es : List AuthEvent) (tr : List Command) (auth : DBusAuth),
    authRun es auth = authTrace es tr auth >>= fun r => pure r.2
  | [], _, _ => rfl
  | .received bytes :: es, tr, auth => authRun_eq_trace es tr (auth.received bytes)
  | .sent n :: es, tr, auth => authRun_eq_trace es tr (auth.bytesSent n)
  | .work env :: es, tr, auth => by
    have hw : doWork env auth = _ := workLoop_eq_trace env (auth.incoming.length + 1) tr _
    rw [authRun, AuthEvent.run, hw, authTrace, bind_assoc, bind_assoc]
    congr 1
    funext ⟨tr', auth'⟩
    exact authRun_eq_trace es tr' auth'

/-- A conversation as the transport makes it. -/
inductive Fresh : DBusAuth → Prop
  | server (guid : List UInt8) (credentials : DBusCredentials)
    (allowedMechs : Option (List (List UInt8))) (context : List UInt8) :
    Fresh (.serverNew guid credentials allowedMechs context)
  | client (env : AuthEnv) (credentials : DBusCredentials)
    (allowedMechs : Option (List (List UInt8))) : Fresh (.clientNew env credentials allowedMechs)

/-! ## Both sides -/

def AuthOk (auth : DBusAuth) : Prop := ServerOk auth ∨ ClientOk auth

def AuthMove (env : AuthEnv) (auth : DBusAuth) (line : List UInt8) (auth' : DBusAuth) : Prop :=
  match auth.side with
  | .server => ServerMove env auth line auth'
  | .client => ClientMove env auth line auth'

/-- No line break stands behind blanks that are skipped. -/
def LineFine (auth : DBusAuth) (line : List UInt8) : Prop :=
  match auth.side with
  | .server => ServerFine auth line
  | .client => ClientFine auth line

variable {env : AuthEnv} {auth auth' : DBusAuth} {line : List UInt8}
  {J : List Command → DBusAuth → Prop}

theorem processLine_moves (hok : AuthOk auth) (hend : auth.state.inEndState = false) :
    Moves (LineFine auth line) (processLine env auth line) (AuthMove env auth line) := by
  rcases hok with hok | hok
  · have hm : AuthMove env auth line = ServerMove env auth line := by
      funext auth'
      simp only [AuthMove, hok.side]
    simp only [LineFine, hok.side, hm]
    exact processLine_server hok hend
  · have hm : AuthMove env auth line = ClientMove env auth line := by
      funext auth'
      simp only [AuthMove, hok.side]
    simp only [LineFine, hok.side, hm]
    exact processLine_client hok hend

/-- The first line that has arrived, if there is one, trips no assertion. -/
def HeadFine (auth : DBusAuth) : Prop :=
  ∀ eol, findEol auth.incoming = some eol → LineFine auth (auth.incoming.take eol)

/-- What one round does: nothing without a line, or a move. -/
def Round (env : AuthEnv) (auth : DBusAuth) (r : Bool × DBusAuth) : Prop :=
  (findEol auth.incoming = none ∧ r = (false, auth)) ∨
    ∃ eol auth', findEol auth.incoming = some eol ∧
      AuthMove env auth (auth.incoming.take eol) auth' ∧ r = (true, auth'.dropLine eol)

theorem processCommand_lands (hok : AuthOk auth) (hend : auth.state.inEndState = false) :
    Lands .assertion (HeadFine auth) (processCommand env auth) (Round env auth) := by
  cases hel : findEol auth.incoming with
  | none =>
    simp only [processCommand, hel]
    have hfn : HeadFine auth := fun eol h => absurd (hel.symm.trans h) (by simp)
    exact .congr (lands_pure (.inl ⟨hel, rfl⟩)) ⟨fun _ => hfn, fun _ => trivial⟩
  | some eol =>
    simp only [processCommand, hel]
    have hfn : LineFine auth (auth.incoming.take eol) ∧ True ↔ HeadFine auth := by
      constructor
      · rintro ⟨h, -⟩ eol' h'
        obtain rfl : eol = eol' := Option.some.inj (hel.symm.trans h')
        exact h
      · exact fun h => ⟨h eol hel, trivial⟩
    refine .withMemory (.congr ((processLine_moves hok hend).bind fun _ b hb => ?_) hfn)
    obtain ⟨ok, auth'⟩ := b
    obtain ⟨rfl : ok = true, hm⟩ := hb
    exact lands_done (.inr ⟨eol, auth', hel, hm, rfl⟩)

/-! ## The invariants of both sides -/

theorem serverOk_reject (hsd : auth.side = .server)
    (hck : 0 ≤ auth.cookieId → auth.mech = some .cookieSha1) : ServerOk (auth.reject line) := by
  have hng : (if auth.mech = some .cookieSha1 then -1 else auth.cookieId) < 0 := by
    split
    · decide
    · by_contra h
      exact absurd (hck (not_lt.1 h)) ‹_›
  rw [reject_eq]
  refine ⟨hsd, ?_, fun _ => hng, fun hst => ?_, fun h => ?_, fun h => ?_⟩
  · dsimp only
    split <;> simp
  · dsimp only at hst
    split at hst <;> cases hst
  · exact absurd h (not_le.2 hng)
  · exact absurd h (not_le.2 hng)

theorem serverOk_dataMove {m : Mechanism} {data : List UInt8} (hok : ServerOk auth)
    (hm : auth.mech = some m) (h : DataMove env auth data m auth') : ServerOk auth' := by
  cases h with
  | rejected _ keyring => exact serverOk_reject hok.side hok.cookie
  | poked =>
    have hng : ¬ 0 ≤ auth.cookieId := fun h => by
      have := hok.cookie h
      simp [hm] at this
    refine ⟨hok.side, by simp [gotoState], (by rintro ⟨⟩), fun _ => ⟨_, hm, ?_⟩,
      hok.keyring, hok.cookie⟩
    rintro ⟨⟩
  | external identity desired =>
    exact ⟨hok.side, by simp [accept, gotoState], (by rintro ⟨⟩),
      (by rintro ⟨⟩), hok.keyring, hok.cookie⟩
  | challenged identity u id keyring keyring' _ _ _ _ _ hid =>
    refine ⟨hok.side, by simp [challenged, gotoState], (by rintro ⟨⟩),
      fun _ => ⟨_, hm, fun _ => hid⟩, fun _ => by simp [challenged, gotoState, send], fun _ => hm⟩
  | cookie | anonymous =>
    exact ⟨hok.side, by simp [accept, gotoState], (by rintro ⟨⟩),
      (by rintro ⟨⟩), hok.keyring, hok.cookie⟩

theorem serverOk_withMech (hok : ServerOk auth) (hst : auth.state = .serverWaitingForAuth)
    (m : Option Mechanism) : ServerOk { auth with mech := m } := by
  have hng := hok.waitingForAuth hst
  refine ⟨hok.side, hok.state, hok.waitingForAuth, fun h => ?_, hok.keyring, fun h => ?_⟩
  · exact absurd (hst.symm.trans h) (by decide)
  · exact absurd hng (not_lt.2 h)

theorem serverOk_move (hok : ServerOk auth) (h : ServerMove env auth line auth') : ServerOk auth' := by
  have hmc : ∀ m, (auth.state = .serverWaitingForAuth ∨ m = auth.mech) →
      ServerOk { auth with mech := m } := by
    rintro m (hst | rfl)
    · exact serverOk_withMech hok hst m
    · exact hok
  cases h with
  | error m message _ hm =>
    have h := hmc m hm
    exact ⟨h.side, h.state, h.waitingForAuth, h.waitingForData, h.keyring, h.cookie⟩
  | rejected m hm => exact serverOk_reject hok.side (hmc m hm).cookie
  | data m data _ hrs hdt =>
    refine serverOk_dataMove (hmc (some m) ?_) rfl hdt
    rcases hrs with ⟨hst, -⟩ | ⟨-, -, hm, -⟩
    · exact .inl hst
    · exact .inr hm.symm
  | begun | dropped =>
    exact ⟨hok.side, by simp [gotoState], (by rintro ⟨⟩), (by rintro ⟨⟩), hok.keyring, hok.cookie⟩

theorem clientOk_move (hok : ClientOk auth) (hend : auth.state ≠ .authenticated)
    (h : ClientMove env auth line auth') : ClientOk auth' := by
  have hg := hok.guid hend
  cases h with
  | error message => exact ⟨hok.side, hok.state, hok.mech, hok.guid⟩
  | answered _ _ _ _ han => cases han <;> exact ⟨hok.side, hok.state, hok.mech, hok.guid⟩
  | ignored => exact hok
  | retried m rest =>
    rw [tryMech, shutdownMech_eq]
    exact ⟨hok.side, by simp [gotoState], by simp [gotoState], fun _ => hg⟩
  | begun => exact ⟨hok.side, by simp [gotoState], hok.mech, fun h => absurd rfl h⟩
  | _ => exact ⟨hok.side, by simp [gotoState], hok.mech, fun _ => hg⟩

theorem authOk_move (hok : AuthOk auth) (hend : auth.state.inEndState = false)
    (h : AuthMove env auth line auth') : AuthOk auth' := by
  rcases hok with hok | hok
  · rw [AuthMove, hok.side] at h
    exact .inl (serverOk_move hok h)
  · rw [AuthMove, hok.side] at h
    refine .inr (clientOk_move hok (fun ha => ?_) h)
    rw [ha] at hend
    cases hend

theorem AuthOk.buffers (h : AuthOk auth) (incoming outgoing : List UInt8) (needed : Bool) :
    AuthOk { auth with incoming := incoming, outgoing := outgoing, neededMemory := needed } := by
  rcases h with h | h
  · exact .inl ⟨h.side, h.state, h.waitingForAuth, h.waitingForData, h.keyring, h.cookie⟩
  · exact .inr ⟨h.side, h.state, h.mech, h.guid⟩

theorem ClientOk.disconnect (h : ClientOk auth) (hend : auth.state.inEndState = false) :
    ClientOk (auth.gotoState .needDisconnect) := by
  refine ⟨h.side, by simp [gotoState], h.mech, fun _ => h.guid fun ha => ?_⟩
  rw [ha] at hend
  cases hend

theorem AuthOk.disconnect (h : AuthOk auth) (hend : auth.state.inEndState = false) :
    AuthOk (auth.gotoState .needDisconnect) := by
  rcases h with h | h
  · exact .inl ⟨h.side, by simp [gotoState], nofun, nofun, h.keyring, h.cookie⟩
  · exact .inr (h.disconnect hend)

theorem Fresh.authOk (h : Fresh auth) : AuthOk auth := by
  cases h with
  | server guid credentials allowedMechs context =>
    have hng : ¬ (0 : ℤ) ≤ -1 := by decide
    exact .inl ⟨rfl, by simp [serverNew, new], fun _ => not_le.1 hng,
      nofun, fun h => absurd h hng, fun h => absurd h hng⟩
  | client env credentials allowedMechs =>
    exact .inr ⟨rfl, by simp [clientNew], by simp [clientNew], fun _ => rfl⟩

/-! ## Runs -/

/-- The loop goes on with `process_command`. -/
def Waits (auth : DBusAuth) : Prop :=
  auth.state.inEndState = false ∧ auth.incoming.length ≤ maxBuffer ∧ auth.outgoing.length ≤ maxBuffer

/-- The loop trips no assertion: no line it meets does. -/
def WorkFine (env : ℕ → AuthEnv) : ℕ → DBusAuth → Prop
  | 0, _ => True
  | fuel + 1, auth => Waits auth → HeadFine auth ∧
    ∀ auth', processCommand (env auth.incoming.length) auth .plenty = (.ok (true, auth'), .plenty) →
      WorkFine env fuel auth'

/-- No line that a run meets has a line break behind blanks that are skipped. -/
def RunFine : List AuthEvent → DBusAuth → Prop
  | [], _ => True
  | .received bytes :: es, auth => RunFine es (auth.received bytes)
  | .sent n :: es, auth => RunFine es (auth.bytesSent n)
  | .work env :: es, auth =>
    WorkFine env (auth.incoming.length + 1) { auth with neededMemory := false } ∧
      ∀ auth', doWork env auth .plenty = (.ok auth', .plenty) → RunFine es auth'

theorem findEol_lt : ∀ {s : List UInt8} {eol : ℕ}, findEol s = some eol → eol + 2 ≤ s.length
  | [], _, h => (nomatch h)
  | c :: cs, eol, h => by
    rw [findEol] at h
    split at h
    · rename_i hp
      obtain rfl : 0 = eol := Option.some.inj h
      exact hp.length_le
    · obtain ⟨n, hn, rfl⟩ := Option.map_eq_some_iff.1 h
      have := findEol_lt hn
      simp only [List.length_cons]
      omega

theorem AuthMove.incoming (hok : AuthOk auth) (h : AuthMove env auth line auth') :
    auth'.incoming = auth.incoming := by
  rcases hok with hok | hok
  · rw [AuthMove, hok.side] at h
    cases h with
    | error => rfl
    | rejected => rw [reject_eq]
    | data m data _ hrs hdt =>
      cases hdt with
      | rejected => rw [reject_eq]
      | _ => rfl
    | begun => rfl
    | dropped => rfl
  · rw [AuthMove, hok.side] at h
    cases h with
    | answered _ _ _ _ han => cases han <;> rfl
    | retried m rest => rw [tryMech, shutdownMech_eq]; rfl
    | _ => rfl

theorem workTrace_lands (env : ℕ → AuthEnv) (hJ : ∀ tr auth, J tr auth → AuthOk auth)
    (hrn : ∀ tr auth auth' eol, J tr auth → Waits auth → findEol auth.incoming = some eol →
      AuthMove (env auth.incoming.length) auth (auth.incoming.take eol) auth' →
      J (tr ++ [⟨env auth.incoming.length, auth.incoming.take eol, auth, auth'.dropLine eol⟩])
        (auth'.dropLine eol)) (ho : ∀ tr auth, J tr auth → auth.state.inEndState = false →
      J tr (auth.gotoState .needDisconnect)) :
    ∀ (fuel : ℕ) (tr : List Command) (auth : DBusAuth), J tr auth → auth.incoming.length < fuel →
      Lands .assertion (WorkFine env fuel auth) (workTrace env fuel tr auth) fun r => J r.1 r.2
  | 0, _, _, _, h => absurd h (Nat.not_lt_zero _)
  | fuel + 1, tr, auth, hj, hfl => by
    have hnt : ∀ {Q : List Command × DBusAuth → Prop} {r}, ¬ Waits auth → Q r →
        Lands Stop.assertion (WorkFine env (fuel + 1) auth) (pure r) Q := fun hw hq =>
      (lands_pure hq).congr ⟨fun _ h => absurd h hw, fun _ => trivial⟩
    refine .ite (fun hend => ?_) fun hend => .ite (fun hbf => ?_) fun hbf => ?_
    · exact hnt (fun hw => absurd hw.1 (by rw [hend]; decide)) hj
    · have hend : auth.state.inEndState = false := by simpa using hend
      refine hnt (fun hw => ?_) (ho tr auth hj hend)
      have := hw.2
      omega
    have hend : auth.state.inEndState = false := by simpa using hend
    have hw : Waits auth := ⟨hend, by omega, by omega⟩
    have hcm : Lands Stop.assertion (HeadFine auth)
        (processCommand (env auth.incoming.length) auth) _ := processCommand_lands (hJ tr auth hj) hend
    by_cases hh : HeadFine auth
    · obtain ⟨b, hb, hr⟩ := hcm.returns hh
      refine (lands_of hb).bind_true fun b' hb' => ?_
      subst hb'
      rcases hr with ⟨-, rfl⟩ | ⟨eol, auth', hel, hm, rfl⟩
      · refine .congr (lands_pure hj) ⟨fun _ _ => ⟨hh, fun auth' h => ?_⟩, fun _ => trivial⟩
        simp [hb] at h
      · have hlt := findEol_lt hel
        have hlen : (auth'.dropLine eol).incoming.length < fuel := by
          rw [dropLine, hm.incoming (hJ tr auth hj), List.length_drop]
          omega
        have hl : auth.firstLine = auth.incoming.take eol := by rw [firstLine, hel]; rfl
        have hnx := hrn tr auth auth' eol hj hw hel hm
        rw [← hl] at hnx
        refine .congr (workTrace_lands env hJ hrn ho fuel _ _ hnx hlen)
          ⟨fun h _ => ⟨hh, fun auth'' h' => ?_⟩, fun h => (h hw).2 _ hb⟩
        rw [hb] at h'
        cases h'
        exact h
    · refine ⟨fun hf => absurd (hf hw).1 hh, fun _ => ?_⟩
      exact bind_of_error (hcm.stops hh) _

/-- **Runs**: a run trips an assertion exactly if it meets a line with a line break behind
    blanks that are skipped, and keeps what every event keeps. -/
theorem authTrace_lands (hJ : ∀ tr auth, J tr auth → AuthOk auth)
    (hbf : ∀ tr auth incoming outgoing needed, J tr auth →
      J tr { auth with incoming := incoming, outgoing := outgoing, neededMemory := needed })
    (hrn : ∀ env tr auth auth' eol, J tr auth → Waits auth → findEol auth.incoming = some eol →
      AuthMove env auth (auth.incoming.take eol) auth' →
      J (tr ++ [⟨env, auth.incoming.take eol, auth, auth'.dropLine eol⟩]) (auth'.dropLine eol))
    (ho : ∀ tr auth, J tr auth → auth.state.inEndState = false →
      J tr (auth.gotoState .needDisconnect)) :
    ∀ (es : List AuthEvent) (tr : List Command) (auth : DBusAuth), J tr auth →
      Lands .assertion (RunFine es auth) (authTrace es tr auth) fun r => J r.1 r.2
  | [], tr, auth, hj => lands_pure hj
  | .received bytes :: es, tr, auth, hj => authTrace_lands hJ hbf hrn ho es tr _
      (hbf tr auth _ auth.outgoing auth.neededMemory hj)
  | .sent n :: es, tr, auth, hj => authTrace_lands hJ hbf hrn ho es tr _
      (hbf tr auth auth.incoming _ auth.neededMemory hj)
  | .work env :: es, tr, auth, hj => by
    have hw := workTrace_lands env hJ
        (fun tr auth auth' eol => hrn (env auth.incoming.length) tr auth auth' eol) ho
        (auth.incoming.length + 1) tr { auth with neededMemory := false }
        (hbf tr auth auth.incoming auth.outgoing false hj) (Nat.lt_succ_self _)
    by_cases hf : WorkFine env (auth.incoming.length + 1) { auth with neededMemory := false }
    · obtain ⟨r, hb, hj'⟩ := hw.returns hf
      obtain ⟨tr', auth'⟩ := r
      have hdo : doWork env auth .plenty = (.ok auth', .plenty) := by
        rw [doWork, workLoop_eq_trace env _ tr, bind_of_ok hb]
        rfl
      refine (lands_of hb).bind_true fun b hb' => ?_
      subst hb'
      refine .congr (authTrace_lands hJ hbf hrn ho es tr' auth' hj')
        ⟨fun h => ⟨hf, fun auth'' h' => ?_⟩, fun h => h.2 auth' hdo⟩
      rw [hdo] at h'
      cases h'
      exact h
    · refine ⟨fun h => absurd h.1 hf, fun _ => ?_⟩
      exact bind_of_error (hw.stops hf) _

/-- **Assertions**: of a new conversation, whatever the peer sends and in whatever chunks, a
    run fails no assertion exactly if no line it meets has a line break behind blanks that
    are skipped. -/
theorem authRun_asserts_iff (h : Fresh auth) (es : List AuthEvent) :
    (authRun es auth .plenty).1 ≠ .error .assertion ↔ RunFine es auth := by
  have htr : Lands Stop.assertion (RunFine es auth) (authTrace es [] auth) fun r => AuthOk r.2 := by
    refine authTrace_lands (J := fun _ => AuthOk) (fun _ _ hok => hok)
      (fun _ auth incoming outgoing needed hok => hok.buffers incoming outgoing needed) ?_
      (fun _ _ hok hend => hok.disconnect hend) es [] auth h.authOk
    intro env _ auth auth' eol hok hw _ hm
    exact (authOk_move hok hw.1 hm).buffers _ auth'.outgoing false
  have hrn : Lands Stop.assertion (RunFine es auth) (authRun es auth) AuthOk := by
    rw [authRun_eq_trace es [] auth]
    exact .congr (htr.bind fun _ r hr => lands_pure hr) (Iff.of_eq (and_true _))
  constructor
  · intro hne
    by_contra hf
    rw [hrn.stops hf] at hne
    exact hne rfl
  · intro hf
    obtain ⟨auth', hb, -⟩ := hrn.returns hf
    rw [hb]
    simp

def rootEnv : AuthEnv :=
  { AuthEnv.bare with
    userOf := fun name => if name = asciiBytes "0" then some (.unix 0) else none
    currentUser := asciiBytes "0" }

def rootCredentials : DBusCredentials := { DBusCredentials.empty with unixUid := some 0 }

def externalLine : List UInt8 := asciiBytes "AUTH EXTERNAL 30" ++ crlf

theorem authRun_asserts_external :
    (authRun [.received externalLine, .work fun _ => .bare] (.serverNew [] .empty none []) .plenty).1 ≠
      .error .assertion ↔
    RunFine [.received externalLine, .work fun _ => .bare] (.serverNew [] .empty none []) :=
  authRun_asserts_iff (.server [] .empty none []) _

/-- A carriage return behind the blank of a command. -/
theorem breakBehindBlank_asserts : Fresh (.serverNew [] .empty none []) ∧
    (authRun [.received (asciiBytes "AUTH \r" ++ crlf), .work fun _ => .bare]
      (.serverNew [] .empty none []) .plenty).1 = .error .assertion :=
  ⟨.server [] .empty none [], by decide +kernel⟩

end DBus
