/-
  The mechanisms a client falls back on.

  A client starts with EXTERNAL.  The first REJECTED of the server lists the mechanisms it
  tries next, one for each REJECTED; once none is left, it disconnects.  Whatever the server
  sends, the list does not become longer, and nothing follows BEGIN (`client_fallback`).
-/
import DBus.Auth.Run
import Mathlib.Data.List.Forall2

namespace DBus

open Alloc List DBusAuth

/-- The line that a command is answered with. -/
def Command.sent (c : Command) : List UInt8 := c.after.outgoing.drop c.before.outgoing.length

/-- The answer starts with `name`. -/
def Command.Sends (c : Command) (name : String) : Prop := asciiBytes name <+: c.sent

instance (c : Command) (name : String) : Decidable (c.Sends name) :=
  inferInstanceAs (Decidable (_ <+: _))

/-- The mechanisms that the first REJECTED of a conversation names. -/
def mechsOffered (allowedMechs : Option (List (List UInt8))) (tr : List Command) : List Mechanism :=
  match tr.find? (IsRejected ·.line) with
  | some c => mechsNamed allowedMechs (argsOf c.line)
  | none => []

/-! ## Moves -/

section
variable {env : AuthEnv} {auth auth' : DBusAuth} {line : List UInt8}

theorem not_prefix_append {name other : List UInt8} (hlen : name.length ≤ other.length)
    (h : ¬ name <+: other) (rest : List UInt8) : ¬ name <+: other ++ rest :=
  fun hp => h (prefix_of_prefix_length_le hp (prefix_append other rest) hlen)

/-- What a client says, and what becomes of its mechanisms. -/
inductive Says (env : AuthEnv) (auth : DBusAuth) (line : List UInt8) (auth' : DBusAuth) : Prop
  | other (bytes : List UInt8) : ¬ IsRejected line → auth'.alreadyGotMechanisms = auth.alreadyGotMechanisms →
    auth'.mechsToTry = auth.mechsToTry → auth'.outgoing = auth.outgoing ++ bytes →
    ¬ asciiBytes "AUTH" <+: bytes → (asciiBytes "BEGIN" <+: bytes → auth'.state = .authenticated) →
    Says env auth line auth'
  | retried (m : Mechanism) : IsRejected line → auth'.alreadyGotMechanisms = true →
    auth.mechsLeft line = m :: auth'.mechsToTry → auth'.outgoing = auth.outgoing ++ authLine env m →
    Says env auth line auth'
  | gaveUp : IsRejected line → auth'.alreadyGotMechanisms = true → auth.mechsLeft line = [] →
    auth'.mechsToTry = [] → auth'.outgoing = auth.outgoing → auth'.state = .needDisconnect →
    Says env auth line auth'

theorem errorLine_other (message : String) {name : String} (hlen : (asciiBytes name).length ≤ 7)
    (h : ¬ asciiBytes name <+: asciiBytes "ERROR \"") : ¬ asciiBytes name <+: errorLine message := by
  simp only [errorLine, append_assoc]
  exact not_prefix_append hlen h _

section
variable (h : ClientMove env auth line auth')
include h

theorem ClientMove.speaks : Says env auth line auth' := by
  have her : ∀ {message : String} {auth1 : DBusAuth}, ¬ IsRejected line →
      auth1.alreadyGotMechanisms = auth.alreadyGotMechanisms → auth1.mechsToTry = auth.mechsToTry →
      auth1.outgoing = auth.outgoing ++ errorLine message → Says env auth line auth1 :=
    fun {message auth1} hl hg hm ho =>
      .other _ hl hg hm ho (errorLine_other message (by decide) (by decide))
        fun hb => absurd hb (errorLine_other message (by decide) (by decide))
  cases h with
  | error message _ hl => exact her hl rfl rfl rfl
  | answered _ _ hcm _ han =>
    have hl := not_isRejected hcm (by decide)
    cases han with
    | error keyring message => exact her hl rfl rfl rfl
    | data keyring data hdt =>
      have hw : ∀ {name : String}, (asciiBytes name).length ≤ 5 →
          ¬ asciiBytes name <+: asciiBytes "DATA " → ¬ asciiBytes name <+: dataLine data := by
        intro name hlen hnm
        rw [dataLine, if_neg hdt, append_assoc]
        exact not_prefix_append hlen hnm _
      exact .other _ hl rfl rfl rfl (hw (by decide) (by decide))
        fun hb => absurd hb (hw (by decide) (by decide))
  | ignored _ hcm =>
    refine .other [] (not_isRejected hcm (by decide)) rfl rfl (append_nil _).symm (by decide) ?_
    exact fun hb => absurd hb (by decide)
  | retried m rest hl hm =>
    refine .retried m hl ?_ hm ?_ <;> rw [tryMech, shutdownMech_eq] <;> rfl
  | gaveUp hl hm => exact .gaveUp hl rfl hm rfl rfl rfl
  | begun _ hcm =>
    exact .other beginLine (not_isRejected hcm (by decide)) rfl rfl rfl (by decide) fun _ => rfl
  | cancelled _ hl =>
    exact .other _ hl rfl rfl rfl (by decide) fun hb => absurd hb (by decide)
  | dropped hl =>
    refine .other [] hl rfl rfl (append_nil _).symm (by decide) ?_
    exact fun hb => absurd hb (by decide)

theorem ClientMove.allowedMechs : auth'.allowedMechs = auth.allowedMechs := by
  cases h with
  | answered _ _ _ _ han => cases han <;> rfl
  | retried m rest => rw [tryMech, shutdownMech_eq]; rfl
  | _ => rfl

end

end

/-! ## Runs -/

/-- What holds of a command `c` behind the commands `tr`: nothing has ended the conversation
    before, a REJECTED behind the last mechanism ends it, and so does a BEGIN. -/
structure FallbackStep (allowedMechs : Option (List (List UInt8))) (tr : List Command) (c : Command) :
    Prop where
  going : ∀ c' ∈ tr, c'.after.state.inEndState = false
  sent : c.after.outgoing = c.before.outgoing ++ c.sent
  left : IsRejected c.line →
    (mechsOffered allowedMechs (tr ++ [c])).length ≤ (tr.filter (·.Sends "AUTH")).length →
    c.after.state = .needDisconnect ∧ c.sent = []
  begun : c.Sends "BEGIN" → c.after.state = .authenticated

/-- What holds of a client that has processed the commands `tr`. -/
structure Fallback (allowedMechs : Option (List (List UInt8))) (tr : List Command) (auth : DBusAuth) :
    Prop where
  ok : ClientOk auth
  allowed : auth.allowedMechs = allowedMechs
  got : auth.alreadyGotMechanisms = true ↔ ∃ c ∈ tr, IsRejected c.line
  tried : ∃ tried, List.Forall₂ (fun c m => c.sent = authLine c.env m)
    (tr.filter (·.Sends "AUTH")) tried ∧ tried ++ auth.mechsToTry = mechsOffered allowedMechs tr
  going : auth.state.inEndState = false → ∀ c ∈ tr, c.after.state.inEndState = false
  steps : ∀ tr₁ c tr₂, tr = tr₁ ++ c :: tr₂ → FallbackStep allowedMechs tr₁ c

section
variable {allowedMechs : Option (List (List UInt8))} {tr : List Command} {auth auth' : DBusAuth}
  {c : Command}

theorem mechsOffered_append (h : ¬ IsRejected c.line ∨ ∃ c ∈ tr, IsRejected c.line) :
    mechsOffered allowedMechs (tr ++ [c]) = mechsOffered allowedMechs tr := by
  rw [mechsOffered, mechsOffered, find?_append]
  rcases h with h | ⟨c', hc', hr⟩
  · simp [h]
  · cases hf : tr.find? (IsRejected ·.line) with
    | some c'' => rfl
    | none => exact absurd hr (by simpa using find?_eq_none.1 hf c' hc')

theorem mechsOffered_first (hc : IsRejected c.line) (h : ¬ ∃ c ∈ tr, IsRejected c.line) :
    mechsOffered allowedMechs tr = [] ∧
      mechsOffered allowedMechs (tr ++ [c]) = mechsNamed allowedMechs (argsOf c.line) := by
  have hnn : tr.find? (IsRejected ·.line) = none := find?_eq_none.2 (by simpa using h)
  simp [mechsOffered, find?_append, hnn, hc]

/-- The mechanisms that are left, behind those that have been tried, are those offered. -/
theorem Fallback.offered (h : Fallback allowedMechs tr auth) (hc : IsRejected c.line)
    {tried : List Mechanism} (ht : tried ++ auth.mechsToTry = mechsOffered allowedMechs tr) :
    tried ++ auth.mechsLeft c.line = mechsOffered allowedMechs (tr ++ [c]) := by
  rw [mechsLeft]
  split
  · next hg => rw [mechsOffered_append (.inr (h.got.1 hg)), ht]
  · next hg =>
    obtain ⟨hnl, hfr⟩ := mechsOffered_first hc (mt h.got.2 hg)
    rw [hfr, h.allowed, ← append_assoc, ht, hnl, nil_append]

theorem Fallback.round {env : AuthEnv} {line : List UInt8} {eol : ℕ} (h : Fallback allowedMechs tr auth)
    (ho : auth.state.inEndState = false) (hmv : ClientMove env auth line auth') :
    Fallback allowedMechs (tr ++ [⟨env, line, auth, auth'.dropLine eol⟩]) (auth'.dropLine eol) := by
  obtain ⟨c, hc⟩ : ∃ c : Command, c = ⟨env, line, auth, auth'.dropLine eol⟩ := ⟨_, rfl⟩
  rw [← hc]
  have hne : auth.state ≠ .authenticated := by
    rintro hst
    rw [hst] at ho
    cases ho
  obtain ⟨hsd, hsta, hmc, hgd⟩ := clientOk_move h.ok hne hmv
  obtain ⟨tried, hal, htr⟩ := h.tried
  have hlen := hal.length_eq
  have hsn : ∀ {bytes : List UInt8}, auth'.outgoing = auth.outgoing ++ bytes → c.sent = bytes := by
    intro bytes hot
    subst hc
    exact (congrArg (List.drop _) hot).trans drop_left
  have hl : c.line = line := by rw [hc]
  -- what is left to show depends on what the client says
  have key : (auth'.alreadyGotMechanisms = true ↔ ∃ c' ∈ tr ++ [c], IsRejected c'.line) ∧
      (∃ tried, List.Forall₂ (fun c m => c.sent = authLine c.env m)
        ((tr ++ [c]).filter (·.Sends "AUTH")) tried ∧
        tried ++ auth'.mechsToTry = mechsOffered allowedMechs (tr ++ [c])) ∧
      FallbackStep allowedMechs tr c := by
    have hg := h.going ho
    cases hmv.speaks with
    | other bytes hr hgt hm hot hat hbg =>
      have hs := hsn hot
      have hr' : ¬ IsRejected c.line := hl ▸ hr
      refine ⟨?_, ⟨tried, ?_, ?_⟩, hg, ?_, fun hrj => absurd hrj hr', fun hb => ?_⟩
      · rw [hgt, h.got]
        simp [hr']
      · simpa [filter_append, Command.Sends, hs, hat] using hal
      · rw [hm, htr, mechsOffered_append (.inl hr')]
      · rw [hs, hc]; exact hot
      · rw [Command.Sends, hs] at hb
        rw [hc]; exact hbg hb
    | retried m hr hgt hm hot =>
      have hs := hsn hot
      have hr' : IsRejected c.line := hl ▸ hr
      have hat : c.Sends "AUTH" := by
        rw [Command.Sends, hs, authLine, append_assoc, append_assoc, append_assoc]
        exact .trans (by decide) (prefix_append (asciiBytes "AUTH ") _)
      have hof := h.offered hr' htr
      rw [hl, hm] at hof
      refine ⟨?_, ⟨tried ++ [m], ?_, ?_⟩, hg, ?_, fun _ hle => ?_, fun hb => ?_⟩
      · simp [hgt, hr']
      · rw [filter_append, show [c].filter (·.Sends "AUTH") = [c] by simp [hat]]
        refine rel_append hal (.cons ?_ .nil)
        rw [hs, hc]
      · rw [← hof, append_assoc]; rfl
      · rw [hs, hc]; exact hot
      · rw [← hof, length_append, length_cons] at hle
        omega
      · rw [Command.Sends, hs, authLine, append_assoc, append_assoc, append_assoc] at hb
        exact absurd hb (not_prefix_append (by decide) (by decide) _)
    | gaveUp hr hgt hm hnl hot hst =>
      have hs : c.sent = [] := hsn (by rw [hot, append_nil])
      have hr' : IsRejected c.line := hl ▸ hr
      have hof := h.offered hr' htr
      rw [hl, hm] at hof
      refine ⟨?_, ⟨tried, ?_, ?_⟩, hg, ?_, fun _ _ => ⟨?_, hs⟩, fun hb => ?_⟩
      · simp [hgt, hr']
      · have hat : ¬ c.Sends "AUTH" := by rw [Command.Sends, hs]; decide
        simpa [filter_append, hat] using hal
      · rw [hnl, hof]
      · rw [hs, hc, append_nil]; exact hot
      · rw [hc]; exact hst
      · rw [Command.Sends, hs] at hb
        exact absurd hb (by decide)
  obtain ⟨hgt, htr', hsp⟩ := key
  refine ⟨⟨hsd, hsta, hmc, hgd⟩, hmv.allowedMechs.trans h.allowed, hgt, htr',
    fun ho' c' hc' => ?_, fun tr1 c1 tr2 heq => ?_⟩
  · rcases mem_append.1 hc' with hc' | hc'
    · exact h.going ho c' hc'
    · rw [mem_singleton.1 hc', hc]
      exact ho'
  · rcases eq_nil_or_concat tr2 with rfl | ⟨tr2, c2, rfl⟩
    · obtain ⟨rfl, hon⟩ := append_inj' heq rfl
      cases hon
      exact hsp
    · rw [concat_eq_append, ← cons_append, ← append_assoc] at heq
      exact h.steps tr1 c1 tr2 (append_inj' heq rfl).1

/-- **Fallback is bounded**: whatever the server sends, in whatever chunks, the AUTH commands
    behind the first are for the mechanisms that the first REJECTED names, in its order; a
    REJECTED behind the last of them is answered with the disconnection; and neither this nor
    BEGIN is followed by anything. -/
theorem client_fallback (env : AuthEnv) (credentials : DBusCredentials)
    (allowedMechs : Option (List (List UInt8))) (es : List AuthEvent) (s : DBusAuth)
    (h : authRun es (.clientNew env credentials allowedMechs) .plenty = (.ok s, .plenty)) :
    ∃ tr, authTrace es [] (.clientNew env credentials allowedMechs) .plenty =
        (.ok (tr, s), .plenty) ∧
      (∃ tried, tried <+: mechsOffered allowedMechs tr ∧
        List.Forall₂ (fun c m => c.sent = authLine c.env m) (tr.filter (·.Sends "AUTH")) tried) ∧
      ∀ tr₁ c tr₂, tr = tr₁ ++ c :: tr₂ → c.after.outgoing = c.before.outgoing ++ c.sent ∧
        (IsRejected c.line →
          (mechsOffered allowedMechs (tr₁ ++ [c])).length ≤ (tr₁.filter (·.Sends "AUTH")).length →
          c.after.state = .needDisconnect ∧ c.sent = [] ∧ tr₂ = []) ∧
        (c.Sends "BEGIN" → tr₂ = []) := by
  have hnw : Fallback allowedMechs [] (.clientNew env credentials allowedMechs) := by
    refine ⟨⟨rfl, by simp [clientNew], by simp [clientNew], fun _ => rfl⟩, rfl,
      ?_, ⟨[], .nil, rfl⟩, fun _ c hc => absurd hc not_mem_nil, fun tr₁ c tr₂ heq => ?_⟩
    · simp [clientNew, new, send]
    · simp at heq
  have htr := authTrace_lands (fun _ _ h => .inr h.ok)
      (fun _ _ incoming outgoing needed h => ⟨⟨h.ok.side, h.ok.state, h.ok.mech, h.ok.guid⟩,
        h.allowed, h.got, h.tried, h.going, h.steps⟩)
      (fun env tr auth auth' eol h hw _ hm => by
        rw [AuthMove, h.ok.side] at hm
        exact h.round hw.1 hm)
      (fun _ _ h ho => ⟨h.ok.disconnect ho, h.allowed, h.got, h.tried,
        fun hend => Bool.noConfusion hend, h.steps⟩) es [] _ hnw
  rw [authRun_eq_trace es []] at h
  by_cases hf : RunFine es (.clientNew env credentials allowedMechs)
  · obtain ⟨⟨tr, s'⟩, hb, hfl⟩ := htr.returns hf
    rw [bind_of_ok hb] at h
    cases h
    obtain ⟨tried, hal, htd⟩ := hfl.tried
    refine ⟨tr, hb, ⟨tried, ⟨_, htd⟩, hal⟩, fun tr₁ c tr₂ heq => ?_⟩
    have hsp := hfl.steps tr₁ c tr₂ heq
    have hl : c.after.state.inEndState = true → tr₂ = [] := by
      intro hend
      cases tr₂ with
      | nil => rfl
      | cons c₂ tr₂ =>
        have hnx := hfl.steps (tr₁ ++ [c]) c₂ tr₂ (by rw [heq, append_assoc]; rfl)
        simp [hnx.going c (by simp)] at hend
    refine ⟨hsp.sent, fun hr hle => ?_, fun hbg => hl ?_⟩
    · obtain ⟨hst, hs⟩ := hsp.left hr hle
      exact ⟨hst, hs, hl (by rw [hst]; rfl)⟩
    · rw [hsp.begun hbg]
      rfl
  · simp [bind_of_error (htr.stops hf)] at h

def rejectingServer : List AuthEvent :=
  [.received (asciiBytes "REJECTED ANONYMOUS" ++ crlf ++ asciiBytes "REJECTED" ++ crlf),
    .work fun _ => .bare]

def rejectedClient : DBusAuth :=
  { clientNew .bare .empty none with
    outgoing := authLine .bare .external ++ authLine .bare .anonymous
    mech := some .anonymous
    alreadyGotMechanisms := true
    state := .needDisconnect }

theorem client_fallback_rejected :
    ∃ tr, authTrace rejectingServer [] (.clientNew .bare .empty none) .plenty =
        (.ok (tr, rejectedClient), .plenty) ∧
      ∃ tried, tried <+: mechsOffered none tr ∧
        List.Forall₂ (fun c m => c.sent = authLine c.env m) (tr.filter (·.Sends "AUTH")) tried := by
  obtain ⟨tr, htr, htd, -⟩ :=
    client_fallback .bare .empty none rejectingServer rejectedClient (by decide +kernel)
  exact ⟨tr, htr, htd⟩

end

end DBus
