/-
  Server authentication is sound.

  The invariant `Sound` follows the commands of a run: where the server waits for data it
  has sent its challenge, where it waits for BEGIN one of the commands was a success of an
  allowed mechanism and none since was rejected.
-/
import DBus.Auth.Run

namespace DBus

open Alloc List DBusAuth

/-! ## What the commands of a run are -/

def Command.Rejects (c : Command) : Prop := c.after.outgoing = c.before.outgoing ++ rejectedLine

instance (c : Command) : Decidable c.Rejects := inferInstanceAs (Decidable (_ = _))

def rejections (tr : List Command) : ℕ := tr.countP (·.Rejects)

/-- The command is a success of the mechanism, that is allowed. -/
structure Command.Succeeds (c : Command) (m : Mechanism) : Prop where
  answered : c.after.outgoing = c.before.outgoing ++ okLine c.before.guid
  before : c.before.state ≠ .serverWaitingForBegin
  after : c.after.state = .serverWaitingForBegin
  mech : c.after.mech = some m
  allowed : findMech m.name c.before.allowedMechs = some m

/-- The command asks for the user `u`, and is answered with a challenge for the cookie `id` of
    their keyring. -/
structure Command.Challenges (c : Command) (u : UserId) (keyring : DBusKeyring) (id : ℤ)
    (challenge : List UInt8) : Prop where
  asked : ∃ data, Response c.before c.line .cookieSha1 data ∧ c.env.userOf data = some u
  keyring : ∃ k, KeyringOf c.env c.before (.addUser .empty u) k ∧ c.env.recentKey k = (id, keyring)
  random : challenge = hexEncode c.env.randomBytes
  sent : c.after.outgoing = c.before.outgoing ++ dataLine (challengeData c.after challenge)

/-- The command carries the hash of the challenge, a challenge of the client and the cookie. -/
def Command.Answers (c : Command) (keyring : DBusKeyring) (id : ℤ) (challenge : List UInt8) : Prop :=
  ∃ data clientChallenge, Response c.before c.line .cookieSha1 data ∧ keyring.getHexKey id ≠ [] ∧
    clientChallenge = data.take (firstBlank data 0) ∧
    data.drop (behindBlanks data (firstBlank data 0)) =
      c.env.sha (challenge ++ asciiBytes ":" ++ clientChallenge ++ asciiBytes ":" ++
        keyring.getHexKey id)

def SameUser (c c' : DBusCredentials) : Prop := c.unixUid = c'.unixUid ∧ c.windowsSid = c'.windowsSid

section
variable (socket : DBusCredentials)

/-- Whose the identity is after a success of the mechanism, with the commands before it. -/
def Identified (pre : List Command) (ok : Command) (identity : DBusCredentials) : Mechanism → Prop
  | .external => identity.areAnonymous = false ∧
    (∀ u ∈ identity.unixUid, socket.unixUid = some u) ∧
    (∀ sid ∈ identity.windowsSid, socket.windowsSid = some sid)
  | .cookieSha1 => ∃ c ∈ pre, ∃ u keyring id challenge, c.Challenges u keyring id challenge ∧
    ok.Answers keyring id challenge ∧ SameUser identity (.addUser .empty u)
  | .anonymous => SameUser identity .empty

section
variable (tr : List Command) (identity : DBusCredentials)

/-- The commands end in a success with no rejection since. -/
def Granted : Prop :=
  ∃ pre ok mid m, tr = pre ++ ok :: mid ∧ ok.Succeeds m ∧
    (∀ c ∈ mid, c.before.state = .serverWaitingForBegin ∧ c.after.state = .serverWaitingForBegin ∧
      ¬ c.Rejects) ∧
    Identified socket pre ok identity m

/-- The last command is a BEGIN that ends an authentication. -/
def Begun : Prop :=
  ∃ tr' c, tr = tr' ++ [c] ∧ c.before.state = .serverWaitingForBegin ∧ commandOf c.line = .begin ∧
    c.after.state = .authenticated ∧ ¬ c.Rejects ∧ Granted socket tr' identity

end

end

/-! ## The invariant -/

/-- The challenge the server waits for the answer of. -/
def Challenged (tr : List Command) (auth : DBusAuth) : Prop :=
  ∃ c ∈ tr, ∃ u keyring, c.Challenges u keyring auth.cookieId auth.challenge ∧
    auth.keyring = some keyring ∧ auth.desiredIdentity = .addUser .empty u

structure Sound (socket : DBusCredentials) (tr : List Command) (auth : DBusAuth) : Prop where
  ok : ServerOk auth
  credentials : auth.credentials = socket
  max : auth.maxFailures = 6
  failures : auth.failures = rejections tr
  rejected : 6 ≤ auth.failures → auth.state = .needDisconnect
  waitingForAuth : auth.state = .serverWaitingForAuth →
    auth.authorizedIdentity = .empty ∧ auth.desiredIdentity = .empty
  waitingForData : auth.state = .serverWaitingForData → auth.authorizedIdentity = .empty ∧
    ∃ m, auth.mech = some m ∧ findMech m.name auth.allowedMechs = some m ∧
      (m = .cookieSha1 → Challenged tr auth)
  waitingForBegin : auth.state = .serverWaitingForBegin → Granted socket tr auth.authorizedIdentity
  authenticated : auth.state = .authenticated → Begun socket tr auth.authorizedIdentity

variable {socket : DBusCredentials} {tr : List Command} {env : AuthEnv} {auth auth' : DBusAuth}
  {line : List UInt8} {eol : ℕ} {c : Command}

theorem errorLine_ne (message : String) : errorLine message ≠ rejectedLine := fun h => by
  have := congrArg List.head? h
  simp only [errorLine, asciiBytes, rejectedLine] at this
  exact absurd this (by simp; decide)

theorem okLine_ne (guid : List UInt8) : okLine guid ≠ rejectedLine := fun h => by
  have := congrArg List.head? h
  simp only [okLine, asciiBytes, rejectedLine] at this
  exact absurd this (by simp; decide)

theorem dataLine_ne (data : List UInt8) : dataLine data ≠ rejectedLine := fun h => by
  have := congrArg List.head? h
  rw [dataLine] at this
  split at this <;> exact absurd this (by simp [asciiBytes, rejectedLine]; decide)

theorem not_rejects_of (h : c.after.outgoing = c.before.outgoing ++ line)
    (hl : line ≠ rejectedLine) : ¬ c.Rejects := fun hr =>
  hl (append_cancel_left (h.symm.trans hr))

theorem rejections_append (tr : List Command) (c : Command) :
    rejections (tr ++ [c]) = rejections tr + if c.Rejects then 1 else 0 := by
  simp [rejections, countP_append, countP_singleton]

theorem Challenged.append (c : Command) (h : Challenged tr auth) : Challenged (tr ++ [c]) auth := by
  obtain ⟨c', hc', h⟩ := h
  exact ⟨c', mem_append_left _ hc', h⟩

theorem Granted.append {identity : DBusCredentials} (h : Granted socket tr identity)
    (hb : c.before.state = .serverWaitingForBegin) (ha : c.after.state = .serverWaitingForBegin)
    (hr : ¬ c.Rejects) : Granted socket (tr ++ [c]) identity := by
  obtain ⟨pre, ok, mid, m, rfl, hok, hm, hid⟩ := h
  refine ⟨pre, ok, mid ++ [c], m, by simp, hok, fun c' hc' => ?_, hid⟩
  rcases mem_append.1 hc' with h | h
  · exact hm c' h
  · obtain rfl := mem_singleton.1 h
    exact ⟨hb, ha, hr⟩

section
variable (h : Sound socket tr auth) {a : DBusAuth}
include h

theorem Sound.lt (hw : Waits auth) : auth.failures < 6 := by
  by_contra hge
  have hend := hw.1
  rw [h.rejected (not_lt.1 hge)] at hend
  cases hend

theorem Sound.not_rejects (hr : ¬ c.Rejects) : auth.failures = rejections (tr ++ [c]) := by
  rw [rejections_append, if_neg hr, h.failures, Nat.add_zero]

theorem Sound.reject (hc : c.Rejects) (hok : ServerOk (a.reject rejectedLine))
    (hcr : a.credentials = auth.credentials) (hm : a.maxFailures = auth.maxFailures)
    (hfl : a.failures = auth.failures) : Sound socket (tr ++ [c]) (a.reject rejectedLine) := by
  have hcn : a.failures + 1 = rejections (tr ++ [c]) := by
    rw [rejections_append, if_pos hc, hfl, h.failures]
  rw [reject_eq] at hok ⊢
  have hsta : ∀ st, st ≠ .needDisconnect → st ≠ .serverWaitingForAuth →
      (if a.failures + 1 ≥ a.maxFailures then AuthStateData.needDisconnect
        else .serverWaitingForAuth) ≠ st := by
    intro st h1 h2
    split
    · exact h1.symm
    · exact h2.symm
  refine ⟨hok, hcr.trans h.credentials, hm.trans h.max, hcn, fun h6 => ?_, fun _ => ⟨rfl, rfl⟩,
    fun hst => ?_, fun hst => ?_, fun hst => ?_⟩
  · exact if_pos (by rw [hm, h.max]; exact h6)
  · exact absurd hst (hsta _ (by decide) (by decide))
  · exact absurd hst (hsta _ (by decide) (by decide))
  · exact absurd hst (hsta _ (by decide) (by decide))

theorem Sound.accept (hw : Waits auth) {m : Mechanism} (hb : c.before = auth)
    (ha : c.after = a.accept.dropLine eol) (ho : a.outgoing = auth.outgoing)
    (hg : a.guid = auth.guid) (hok : ServerOk a.accept)
    (hcr : a.credentials = auth.credentials) (hmx : a.maxFailures = auth.maxFailures)
    (hfl : a.failures = auth.failures) (hst : auth.state ≠ .serverWaitingForBegin)
    (hm : a.mech = some m) (hal : findMech m.name auth.allowedMechs = some m)
    (hid : Identified socket tr c a.authorizedIdentity m) : Sound socket (tr ++ [c]) a.accept := by
  subst hb
  have hlt := h.lt hw
  have han : c.after.outgoing = c.before.outgoing ++ okLine c.before.guid := by
    rw [ha, ← ho, ← hg]
    rfl
  have hnt : ¬ c.Rejects := not_rejects_of han (okLine_ne _)
  refine ⟨hok, hcr.trans h.credentials, hmx.trans h.max, hfl.trans (h.not_rejects hnt),
    fun h6 => ?_, nofun, nofun, fun _ => ?_, nofun⟩
  · have h6 : 6 ≤ a.failures := h6
    omega
  · exact ⟨tr, c, [], m, rfl, ⟨han, hst, by rw [ha]; rfl, by rw [ha]; exact hm, hal⟩,
      fun c' hc' => absurd hc' not_mem_nil, hid⟩

end

theorem superset_user {c d : DBusCredentials} (h : c.areSuperset d = true) :
    (∀ u ∈ d.unixUid, c.unixUid = some u) ∧ (∀ sid ∈ d.windowsSid, c.windowsSid = some sid) := by
  simp only [DBusCredentials.areSuperset, Bool.and_eq_true, Bool.or_eq_true, decide_eq_true_eq] at h
  obtain ⟨⟨⟨-, hu⟩, hs⟩, -⟩ := h
  constructor
  · intro u hm
    have hd : d.unixUid = some u := hm
    rcases hu with hn | heq
    · simp [hn] at hd
    · rw [← heq, hd]
  · intro sid hm
    have hd : d.windowsSid = some sid := hm
    rcases hs with hn | heq
    · simp [hn] at hd
    · rw [← heq, hd]

section
variable {m : Mechanism} {data : List UInt8}

theorem Sound.response (h : Sound socket tr auth) (hrs : Response auth line m data) :
    auth.authorizedIdentity = .empty ∧ auth.state ≠ .serverWaitingForBegin ∧
      findMech m.name auth.allowedMechs = some m := by
  rcases hrs with ⟨hst, -, hfn, -⟩ | ⟨hst, -, hm, -⟩
  · exact ⟨(h.waitingForAuth hst).1, by rw [hst]; decide, (findMech_name hfn).symm ▸ hfn⟩
  · obtain ⟨hat, m', hm', hal, -⟩ := h.waitingForData hst
    obtain rfl : m = m' := Option.some.inj (hm.symm.trans hm')
    exact ⟨hat, by rw [hst]; decide, hal⟩

theorem sound_data (h : Sound socket tr auth) (hw : Waits auth) (hrs : Response auth line m data)
    (hmv : DataMove env { auth with mech := some m } data m auth') (hok : ServerOk auth') :
    Sound socket (tr ++ [⟨env, line, auth, auth'.dropLine eol⟩]) auth' := by
  obtain ⟨hat, hst, hal⟩ := h.response hrs
  have hlt := h.lt hw
  cases hmv with
  | rejected _ keyring =>
    refine h.reject ?_ hok rfl rfl rfl
    rw [reject_eq]
    rfl
  | poked =>
    refine ⟨hok, h.credentials, h.max, h.not_rejects (not_rejects_of rfl (dataLine_ne [])), fun h6 => absurd hlt (not_lt.2 h6),
      nofun, fun _ => ⟨hat, .external, rfl, hal, nofun⟩,
      nofun, nofun⟩
  | external identity desired _ han hsp =>
    refine h.accept hw rfl rfl rfl rfl hok rfl rfl rfl hst rfl hal ?_
    obtain ⟨hud, hsd⟩ := superset_user hsp
    rw [← h.credentials]
    have hu : SameUser (auth.authorizedIdentity.addingAll
        (externalGrant desired auth.credentials)) desired := by
      rw [hat]
      obtain ⟨pid, uid, sid, adt⟩ := desired
      cases uid <;> cases sid <;> exact ⟨rfl, rfl⟩
    refine ⟨?_, ?_, ?_⟩
    · rw [DBusCredentials.areAnonymous] at han ⊢
      rw [hu.1, hu.2]
      exact han
    · rw [hu.1]
      exact hud
    · rw [hu.2]
      exact hsd
  | challenged identity u id keyring keyring' hng _ hu hke hrc hid =>
    -- the cookie is only chosen for the first response
    have hst' : auth.state = .serverWaitingForAuth := by
      rcases hrs with ⟨hst, -⟩ | ⟨hst, -, hm, -⟩
      · exact hst
      · obtain ⟨m', hm', hc⟩ := h.ok.waitingForData hst
        obtain rfl : .cookieSha1 = m' := Option.some.inj (hm.symm.trans hm')
        exact absurd (hc rfl) (not_le.2 hng)
    have hds := (h.waitingForAuth hst').2
    refine ⟨hok, h.credentials, h.max, h.not_rejects (not_rejects_of rfl (dataLine_ne _)), fun h6 => absurd hlt (not_lt.2 h6),
      nofun, fun _ => ⟨hat, .cookieSha1, rfl, hal, fun _ => ?_⟩,
      nofun, nofun⟩
    refine ⟨_, mem_append_right _ mem_cons_self, u, keyring', ⟨⟨data, hrs, hu⟩,
      ⟨keyring, ?_, hrc⟩, rfl, rfl⟩, rfl, ?_⟩
    · rw [← hds]
      exact hke
    · exact congrArg (DBusCredentials.addUser · u) hds
  | cookie keyring clientChallenge hid hky hke hcc hh =>
    have hst' : auth.state = .serverWaitingForData ∧ auth.mech = some .cookieSha1 := by
      rcases hrs with ⟨hst, -⟩ | ⟨hst, -, hm, -⟩
      · exact absurd (h.ok.waitingForAuth hst) (not_lt.2 hid)
      · exact ⟨hst, hm⟩
    obtain ⟨-, m', hm', -, hch⟩ := h.waitingForData hst'.1
    obtain rfl : .cookieSha1 = m' := Option.some.inj (hst'.2.symm.trans hm')
    obtain ⟨c, hc, u, keyring', hch, hky', hds⟩ := hch rfl
    obtain rfl : keyring = keyring' := Option.some.inj (hky.symm.trans hky')
    refine h.accept hw rfl rfl rfl rfl hok rfl rfl rfl hst rfl hal ?_
    refine ⟨c, hc, u, keyring, auth.cookieId, auth.challenge, hch,
      ⟨data, clientChallenge, hrs, hke, hcc, hh⟩, ?_⟩
    rw [hat, hds]
    cases u <;> exact ⟨rfl, rfl⟩
  | anonymous =>
    refine h.accept hw rfl rfl rfl rfl hok rfl rfl rfl hst rfl hal ?_
    rw [hat]
    exact ⟨rfl, rfl⟩

end

section
variable (h : Sound socket tr auth)
include h

theorem sound_move (hw : Waits auth) (hmv : ServerMove env auth line auth') :
    Sound socket (tr ++ [⟨env, line, auth, auth'.dropLine eol⟩]) auth' := by
  have hok := serverOk_move h.ok hmv
  have hlt := h.lt hw
  cases hmv with
  | error m message _ hm =>
    have hnt : ¬ Command.Rejects ⟨env, line, auth,
        ({ auth with mech := m }.send (errorLine message)).dropLine eol⟩ :=
      not_rejects_of rfl (errorLine_ne message)
    refine ⟨hok, h.credentials, h.max, h.not_rejects hnt, fun h6 => absurd hlt (not_lt.2 h6),
      h.waitingForAuth, fun hst => ?_, fun hst => (h.waitingForBegin hst).append hst hst hnt,
      fun hst => ?_⟩
    · obtain ⟨hat, m', hm', hal, hch⟩ := h.waitingForData hst
      have hsm : m = auth.mech := hm.resolve_left fun h => absurd (hst.symm.trans h) (by decide)
      exact ⟨hat, m', hsm.trans hm', hal, fun hc => (hch hc).append _⟩
    · have hend := hw.1
      rw [show auth.state = .authenticated from hst] at hend
      cases hend
  | rejected m hm =>
    refine h.reject ?_ hok rfl rfl rfl
    rw [reject_eq]
    rfl
  | data m data _ hrs hdt => exact sound_data h hw hrs hdt hok
  | begun hst hcm =>
    have hnt : ¬ Command.Rejects ⟨env, line, auth, (auth.gotoState .authenticated).dropLine eol⟩ :=
      fun hr => absurd (self_eq_append_right.1 hr) (by decide)
    exact ⟨hok, h.credentials, h.max, h.not_rejects hnt, fun h6 => absurd hlt (not_lt.2 h6),
      nofun, nofun, nofun,
      fun _ => ⟨tr, _, rfl, hst, hcm, rfl, hnt, h.waitingForBegin hst⟩⟩
  | dropped hst hcm =>
    have hnt : ¬ Command.Rejects ⟨env, line, auth, (auth.gotoState .needDisconnect).dropLine eol⟩ :=
      fun hr => absurd (self_eq_append_right.1 hr) (by decide)
    exact ⟨hok, h.credentials, h.max, h.not_rejects hnt, fun _ => rfl, nofun, nofun, nofun, nofun⟩

theorem Sound.buffers (incoming outgoing : List UInt8) (needed : Bool) :
    Sound socket tr { auth with incoming := incoming, outgoing := outgoing, neededMemory := needed } := by
  have hok := h.ok
  exact ⟨⟨hok.side, hok.state, hok.waitingForAuth, hok.waitingForData, hok.keyring, hok.cookie⟩,
    h.credentials, h.max, h.failures, h.rejected, h.waitingForAuth, h.waitingForData,
    h.waitingForBegin, h.authenticated⟩

theorem Sound.disconnect : Sound socket tr (auth.gotoState .needDisconnect) :=
  ⟨⟨h.ok.side, by simp [gotoState], nofun, nofun,
      h.ok.keyring, h.ok.cookie⟩, h.credentials, h.max, h.failures, fun _ => rfl,
    nofun, nofun, nofun, nofun⟩

end

theorem sound_new (guid : List UInt8) (allowedMechs : Option (List (List UInt8)))
    (context : List UInt8) : Sound socket [] (.serverNew guid socket allowedMechs context) := by
  have hng : ¬ (0 : ℤ) ≤ -1 := by decide
  refine ⟨⟨rfl, by simp [serverNew, new], fun _ => not_le.1 hng,
    nofun, fun h => absurd h hng, fun h => absurd h hng⟩, rfl, rfl, rfl, fun h => ?_,
    fun _ => ⟨rfl, rfl⟩, nofun, nofun, nofun⟩
  exact absurd h (by simp [serverNew, new])

/-- **Soundness of the server**: whatever arrives, in whatever chunks, the conversation is
    authenticated only by a BEGIN, behind a success of an allowed mechanism and no rejection
    since; the authorized identity is then the one the mechanism has checked; and after six
    rejections there is only the disconnection. -/
theorem server_sound (guid : List UInt8) (socket : DBusCredentials)
    (allowedMechs : Option (List (List UInt8))) (context : List UInt8) (es : List AuthEvent)
    (s : DBusAuth)
    (h : authRun es (.serverNew guid socket allowedMechs context) .plenty = (.ok s, .plenty)) :
    ∃ tr, authTrace es [] (.serverNew guid socket allowedMechs context) .plenty =
        (.ok (tr, s), .plenty) ∧
      (s.state = .authenticated → Begun socket tr s.authorizedIdentity) ∧
      (6 ≤ rejections tr → s.state = .needDisconnect) := by
  have htr : Lands Stop.assertion (RunFine es _) (authTrace es [] _) fun r => Sound socket r.1 r.2 :=
    authTrace_lands (fun _ _ h => .inl h.ok)
      (fun _ _ incoming outgoing needed h => h.buffers incoming outgoing needed)
      (fun env tr auth auth' eol h hw _ hm => by
        rw [AuthMove, h.ok.side] at hm
        exact (sound_move h hw hm).buffers _ auth'.outgoing false)
      (fun _ _ h _ => h.disconnect) es [] _ (sound_new guid allowedMechs context)
  rw [authRun_eq_trace es []] at h
  by_cases hf : RunFine es (.serverNew guid socket allowedMechs context)
  · obtain ⟨⟨tr, s'⟩, hb, hs⟩ := htr.returns hf
    rw [bind_of_ok hb] at h
    cases h
    exact ⟨tr, hb, hs.authenticated, fun h6 => hs.rejected (hs.failures ▸ h6)⟩
  · simp [bind_of_error (htr.stops hf)] at h

def anonymousClient : List AuthEvent :=
  [.received (asciiBytes "AUTH ANONYMOUS" ++ crlf ++ beginLine), .work fun _ => .bare]

def anonymousServer : DBusAuth :=
  { serverNew [] .empty none [] with
    mech := some .anonymous
    outgoing := okLine []
    state := .authenticated }

theorem server_sound_anonymous :
    ∃ tr, authTrace anonymousClient [] (.serverNew [] .empty none []) .plenty =
        (.ok (tr, anonymousServer), .plenty) ∧
      (anonymousServer.state = .authenticated →
        Begun .empty tr anonymousServer.authorizedIdentity) ∧
      (6 ≤ rejections tr → anonymousServer.state = .needDisconnect) :=
  server_sound [] .empty none [] anonymousClient anonymousServer (by decide +kernel)

end DBus
