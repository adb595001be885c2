/-
  What one command can do on the client while there is memory.
-/
import DBus.Auth.Moves
import Mathlib.Logic.Relation

namespace DBus

open Outcome Alloc List

variable {env : AuthEnv} {auth : DBusAuth} {line : List UInt8} {e : Stop} {args : List UInt8}
  {i : ℕ}

/-! ## The list of mechanisms -/

/-- The words of a list, with blanks between them. -/
def wordsOf (args : List UInt8) : List (List UInt8) := (args.splitOnP isBlank).filter (· ≠ [])

/-- The mechanisms that a list names, without the one that is always tried first. -/
def mechsNamed (allowedMechs : Option (List (List UInt8))) (args : List UInt8) : List Mechanism :=
  ((wordsOf args).filterMap (findMech · allowedMechs)).filter (· ≠ .external)

/-- The word of a list behind the blanks at `i`, empty at its end. -/
def wordAt (args : List UInt8) (i : ℕ) : List UInt8 :=
  (args.drop (behindBlanks args i)).take
    (firstBlank args (behindBlanks args i) - behindBlanks args i)

theorem wordsOf_blank {c : UInt8} (h : isBlank c = true) (args : List UInt8) :
    wordsOf (c :: args) = wordsOf args := by
  simp [wordsOf, splitOnP_cons_eq_if_modifyHead, h]

theorem wordsOf_dropWhile (args : List UInt8) : wordsOf (args.dropWhile isBlank) = wordsOf args := by
  induction args with
  | nil => rfl
  | cons c args ih =>
    rw [dropWhile_cons]
    split
    · next h => rw [ih, wordsOf_blank h]
    · rfl

theorem wordsOf_append {word rest : List UInt8} (hw : ∀ c ∈ word, isBlank c = false)
    (hrs : ∀ c ∈ rest.head?, isBlank c = true) :
    wordsOf (word ++ rest) = [word].filter (· ≠ []) ++ wordsOf rest := by
  cases rest with
  | nil => simp [wordsOf, splitOnP_eq_singleton hw]
  | cons c rest =>
    have hc : isBlank c = true := hrs c rfl
    rw [wordsOf_blank hc, wordsOf, splitOnP_append_cons_of_forall_mem hw c hc,
      ← singleton_append, filter_append, wordsOf]

theorem wordsOf_wordAt (args : List UInt8) (i : ℕ) :
    wordsOf (args.drop i) = [wordAt args i].filter (· ≠ []) ++
      wordsOf (args.drop (firstBlank args (behindBlanks args i))) := by
  obtain ⟨b, hb⟩ : ∃ b, b = behindBlanks args i := ⟨_, rfl⟩
  have hdr : (args.drop i).dropWhile isBlank = args.drop b := by
    rw [dropWhile_eq_drop_findIdx_not, drop_drop, hb, behindBlanks]
  have htk : wordAt args i = (args.drop b).takeWhile (!isBlank ·) := by
    simp [wordAt, ← hb, firstBlank, takeWhile_eq_take_findIdx_not]
  have hrs : args.drop (firstBlank args b) = (args.drop b).dropWhile (!isBlank ·) := by
    simp [firstBlank, dropWhile_eq_drop_findIdx_not, drop_drop]
  rw [← wordsOf_dropWhile, hdr, htk, ← hb, hrs, ← wordsOf_append, takeWhile_append_dropWhile]
  · intro c hc
    simpa using mem_takeWhile_imp hc
  · intro c hc
    have hnt := head?_dropWhile_not (!isBlank ·) (args.drop b)
    rw [Option.mem_def.1 hc] at hnt
    simpa using hnt

theorem mechsNamed_wordAt (allowedMechs : Option (List (List UInt8))) (args : List UInt8) (i : ℕ) :
    mechsNamed allowedMechs (args.drop i) =
      (findMech (wordAt args i) allowedMechs).toList.filter (· ≠ .external) ++
        mechsNamed allowedMechs (args.drop (firstBlank args (behindBlanks args i))) := by
  rw [mechsNamed, wordsOf_wordAt, filterMap_append, filter_append, mechsNamed]
  congr 2
  by_cases hw : wordAt args i = []
  · have hnn : findMech [] allowedMechs = none := by
      rw [findMech]
      split
      · rfl
      · rfl
    simp [hw, hnn]
  · cases hf : findMech (wordAt args i) allowedMechs with
    | none | some m => simp [hw, hf]

/-- From one word of a list to the next, as `record_mechanisms` reads it. -/
def NextWord (args : List UInt8) (i j : ℕ) : Prop :=
  i < args.length ∧ j = firstBlank args (behindBlanks args i)

/-- No line break stands behind blanks where the words of a list are read from `i` on. -/
def WordsFine (args : List UInt8) (i : ℕ) : Prop :=
  ∀ j, Relation.ReflTransGen (NextWord args) i j → j < args.length → SkipFine args j

theorem wordsFine_end (h : args.length ≤ i) : WordsFine args i := by
  intro j hj hlt
  rcases Relation.ReflTransGen.cases_head hj with rfl | ⟨k, ⟨hk, -⟩, -⟩
  · omega
  · omega

theorem wordsFine_step (h : i < args.length) :
    WordsFine args i ↔ SkipFine args i ∧ WordsFine args (firstBlank args (behindBlanks args i)) := by
  constructor
  · intro hw
    exact ⟨hw i .refl h, fun j hj => hw j (.head ⟨h, rfl⟩ hj)⟩
  · rintro ⟨hs, hw⟩ j hj hlt
    rcases Relation.ReflTransGen.cases_head hj with rfl | ⟨k, ⟨-, rfl⟩, hk⟩
    · exact hs
    · exact hw j hk hlt

theorem lt_nextWord (h : i < args.length) : i < firstBlank args (behindBlanks args i) := by
  have hb : behindBlanks args i ≤ firstBlank args (behindBlanks args i) := le_firstBlank
  have hi : i ≤ behindBlanks args i := le_behindBlanks
  rcases Nat.lt_or_ge i (behindBlanks args i) with hlt | hge
  · omega
  · have heq : behindBlanks args i = i := by omega
    rw [heq]
    have hdr : args.drop i = args[i] :: args.drop (i + 1) := drop_eq_getElem_cons h
    have hnb : isBlank args[i] = false := by
      unfold behindBlanks at heq
      rw [hdr, findIdx_cons] at heq
      by_contra hb
      have hb : isBlank args[i] = true := by simpa using hb
      simp [hb] at heq
    unfold firstBlank
    rw [hdr, findIdx_cons, hnb]
    simp

theorem getWord_decides (h : i ≤ args.length) :
    Decides (SkipFine args i) .assertion (getWord args i)
      (firstBlank args (behindBlanks args i), wordAt args i) := by
  have hb : behindBlanks args i ≤ args.length := behindBlanks_le h
  have hf : firstBlank args (behindBlanks args i) ≤ args.length := firstBlank_le hb
  constructor
  · intro hs
    rw [getWord, (skipBlank_decides h).1 hs, ok_bind, findBlank_eq hb, ok_bind]
    simp only [copyLen_eq (show behindBlanks args i + (firstBlank args (behindBlanks args i) -
      behindBlanks args i) ≤ args.length by omega), ok_bind]
    rfl
  · intro hs
    rw [getWord, (skipBlank_decides h).2 hs, error_bind]

theorem recordLoop_lands (allowedMechs : Option (List (List UInt8))) (args : List UInt8) :
    ∀ (fuel next : ℕ) (mechs : List Mechanism), next ≤ args.length → args.length < next + fuel →
      Lands .assertion (WordsFine args next) (recordLoop allowedMechs args fuel next mechs)
        (· = (true, mechs ++ mechsNamed allowedMechs (args.drop next)))
  | 0, next, mechs, hle, h => absurd h (by omega)
  | fuel + 1, next, mechs, hle, h => by
    refine .ite (fun hend => ?_) fun hlt => .withMemory ?_
    · refine .congr (lands_pure ?_) ⟨fun _ => wordsFine_end hend, fun _ => trivial⟩
      rw [drop_of_length_le hend]
      simp [mechsNamed, wordsOf]
    · have hlt : next < args.length := not_le.1 hlt
      have hnx := lt_nextWord hlt
      refine .congr ((lands_lift (getWord_decides hlt.le)).bind ?_) (wordsFine_step hlt).symm
      rintro - r rfl
      have hrc := fun mechs => recordLoop_lands allowedMechs args fuel _ mechs
        (firstBlank_le (behindBlanks_le hle)) (show args.length < _ + fuel by omega)
      rw [mechsNamed_wordAt]
      dsimp only
      cases findMech (wordAt args next) allowedMechs with
      | none => exact hrc mechs
      | some m =>
        refine .ite (fun hm => ?_) fun hm => .withMemory ?_
        · simpa [hm] using hrc mechs
        · simpa [hm, append_assoc] using hrc (mechs ++ [m])

/-! ## The cookie -/

/-- Data of the server in which no line break stands behind the blanks that separate the
    context, the id of the cookie and the challenge. -/
def CookieFine (data : List UInt8) : Prop :=
  firstBlank data 0 < data.length → SkipFine data (firstBlank data 0) ∧
    (firstBlank data (behindBlanks data (firstBlank data 0)) < data.length →
      SkipFine data (firstBlank data (behindBlanks data (firstBlank data 0))))

/-- What the client makes of the data of the server for the cookie mechanism: it answers
    with an error or with data, and may have loaded its keyring. -/
inductive AnswerMove (auth : DBusAuth) : DBusAuth → Prop
  | error (keyring : Option DBusKeyring) (message : String) : OneLine message →
    AnswerMove auth ({ auth with keyring := keyring }.send (errorLine message))
  | data (keyring : Option DBusKeyring) (data : List UInt8) : data ≠ [] →
    AnswerMove auth ({ auth with keyring := keyring }.send (dataLine data))

theorem cookieAnswer_moves {keyring : DBusKeyring} (val : ℤ) (serverChallenge : List UInt8) :
    Moves True (cookieAnswer env { auth with keyring := some keyring } val serverChallenge)
      (AnswerMove auth) := by
  refine .withMemory ((sha1ComputeHash_lands rfl ..).bind_true fun r hr => ?_)
  have hsm : ∃ hash, r = some hash := by rcases hr with ⟨-, rfl⟩ | ⟨-, rfl⟩ <;> exact ⟨_, rfl⟩
  obtain ⟨hash, rfl⟩ := hsm
  refine .ite (fun _ => sendError_moves (.error (some keyring) _ (by decide))) fun _ => .withMemory ?_
  refine (sendData_lands _).mono fun b hb => ?_
  subst hb
  exact ⟨rfl, .data (some keyring) _ (by simp [asciiBytes])⟩

theorem cookieCheck_moves (context cookieIdStr serverChallenge : List UInt8) :
    Moves True (cookieCheck env auth context cookieIdStr serverChallenge) (AnswerMove auth) := by
  have her : ∀ message, OneLine message → AnswerMove auth (auth.send (errorLine message)) :=
    fun message h => .error auth.keyring message h
  refine .ite (fun _ => sendError_moves (her _ (by decide))) fun _ => ?_
  cases env.strtol cookieIdStr with
  | none => exact sendError_moves (her _ (by decide))
  | some val =>
    refine .ite (fun _ => sendError_moves (her _ (by decide))) fun _ => ?_
    cases hk : auth.keyring with
    | some keyring =>
      have h : Moves True (cookieAnswer env { auth with keyring := some keyring } val serverChallenge)
          (AnswerMove auth) := cookieAnswer_moves val serverChallenge
      rw [← hk] at h
      exact h
    | none =>
      refine (keyringNewForCredentials_lands none context).bind_true fun r hr => ?_
      rcases hr with ⟨rfl, -⟩ | ⟨keyring, -, rfl⟩
      · exact sendError_moves (her _ (by decide))
      · exact cookieAnswer_moves val serverChallenge

theorem handleClientDataCookieSha1Mech_moves {data : List UInt8} :
    Moves (CookieFine data) (handleClientDataCookieSha1Mech env auth data) (AnswerMove auth) := by
  have her : ∀ message, OneLine message → AnswerMove auth (auth.send (errorLine message)) :=
    fun message h => .error auth.keyring message h
  have hi : firstBlank data 0 ≤ data.length := firstBlank_le (Nat.zero_le _)
  refine (lands_lift_ok (findBlank_eq (Nat.zero_le _))).bind_eq ?_
  refine .ite (fun hf => ?_) fun hf => .withMemory ?_
  · have hfn : CookieFine data := fun h => absurd h (of_decide_eq_false hf)
    exact (sendError_moves (her _ (by decide))).congr ⟨fun _ => hfn, fun _ => trivial⟩
  have hlt : firstBlank data 0 < data.length := by simpa using hf
  refine (lands_lift_ok (copyLen_start hi)).bind_eq ?_
  have hfn : SkipFine data (firstBlank data 0) ∧
      (firstBlank data (behindBlanks data (firstBlank data 0)) < data.length →
        SkipFine data (firstBlank data (behindBlanks data (firstBlank data 0)))) ↔ CookieFine data :=
    ⟨fun h _ => h, fun h => h hlt⟩
  refine .congr ((lands_lift (skipBlank_decides hi)).bind ?_) hfn
  rintro - i rfl
  obtain ⟨i, hiq⟩ : ∃ i, i = behindBlanks data (firstBlank data 0) := ⟨_, rfl⟩
  rw [← hiq]
  have hil : i ≤ data.length := hiq ▸ behindBlanks_le hi
  have hj : firstBlank data i ≤ data.length := firstBlank_le hil
  refine (lands_lift_ok (findBlank_eq hil)).bind_eq ?_
  refine .ite (fun hf => ?_) fun hf => .withMemory ?_
  · exact (sendError_moves (her _ (by decide))).congr (vacuous (of_decide_eq_false hf))
  have hlt : firstBlank data i < data.length := by simpa using hf
  refine (lands_lift_ok (copyLen_eq (by omega))).bind_eq ?_
  refine .congr ((lands_lift (skipBlank_decides hj)).bind (d := True) ?_)
    ⟨fun h _ => h.1, fun h => ⟨h hlt, trivial⟩⟩
  rintro - k rfl
  refine (lands_lift_ok (copyLen_rest (behindBlanks_le hj))).bind_eq ?_
  exact cookieCheck_moves _ _ _

/-! ## Lines for the client -/

/-- What holds of the conversation of a client all the time. -/
structure ClientOk (auth : DBusAuth) : Prop where
  side : auth.side = .client
  state : auth.state ∈ [.clientWaitingForData, .clientWaitingForOk, .clientWaitingForReject,
    AuthStateData.authenticated, .needDisconnect]
  mech : auth.mech ≠ none
  guid : auth.state ≠ .authenticated → auth.guidFromServer = []

/-- The conversation once `send_auth` has sent its line. -/
def DBusAuth.tryMech (auth : DBusAuth) (env : AuthEnv) (m : Mechanism) : DBusAuth :=
  { (auth.send (authLine env m)).shutdownMech with mech := some m }.gotoState .clientWaitingForData

/-- A line that is a REJECTED. -/
def IsRejected (line : List UInt8) : Prop := validateAscii line = true ∧ commandOf line = .rejected

instance (line : List UInt8) : Decidable (IsRejected line) :=
  inferInstanceAs (Decidable (_ ∧ _))

theorem not_isRejected {c : AuthCommand} (h : commandOf line = c)
    (hc : c ≠ .rejected) : ¬ IsRejected line := fun hr => hc (h.symm.trans hr.2)

/-- The mechanisms that are left to try when a REJECTED has come: the first one lists them. -/
def DBusAuth.mechsLeft (auth : DBusAuth) (line : List UInt8) : List Mechanism :=
  if auth.alreadyGotMechanisms then auth.mechsToTry
  else auth.mechsToTry ++ mechsNamed auth.allowedMechs (argsOf line)

/-- What the client makes of a line. -/
inductive ClientMove (env : AuthEnv) (auth : DBusAuth) (line : List UInt8) : DBusAuth → Prop
  | error (message : String) : OneLine message → ¬ IsRejected line →
    ClientMove env auth line (auth.send (errorLine message))
  | answered (auth' : DBusAuth) : auth.state = .clientWaitingForData → commandOf line = .data →
    auth.mech = some .cookieSha1 → AnswerMove auth auth' → ClientMove env auth line auth'
  | ignored : auth.state = .clientWaitingForData → commandOf line = .data → ClientMove env auth line auth
  | retried (m : Mechanism) (rest : List Mechanism) : IsRejected line → auth.mechsLeft line = m :: rest →
    ClientMove env auth line
      { { auth with mechsToTry := m :: rest, alreadyGotMechanisms := true }.tryMech env m with
        mechsToTry := rest }
  | gaveUp : IsRejected line → auth.mechsLeft line = [] →
    ClientMove env auth line
      ({ auth with mechsToTry := [], alreadyGotMechanisms := true }.gotoState .needDisconnect)
  | begun : auth.state ≠ .clientWaitingForReject → commandOf line = .ok → argsOf line ≠ [] →
    (hexDecode (argsOf line)).2 = (argsOf line).length →
    ClientMove env auth line
      (({ auth with guidFromServer := argsOf line }.send beginLine).gotoState .authenticated)
  | cancelled : auth.state ≠ .clientWaitingForReject → ¬ IsRejected line →
    ClientMove env auth line
      ((auth.send (asciiBytes "CANCEL" ++ crlf)).gotoState .clientWaitingForReject)
  | dropped : ¬ IsRejected line → ClientMove env auth line (auth.gotoState .needDisconnect)

/-- No line break stands behind blanks where the client skips them: behind the command, in
    the list of mechanisms, and in the data of the cookie mechanism. -/
def ClientFine (auth : DBusAuth) (line : List UInt8) : Prop :=
  validateAscii line = true → SkipFine line (firstBlank line 0) ∧
    (commandOf line = .rejected → auth.alreadyGotMechanisms = false → WordsFine (argsOf line) 0) ∧
    (auth.state = .clientWaitingForData → commandOf line = .data →
      auth.mech = some .cookieSha1 → (hexDecode (argsOf line)).2 = (argsOf line).length →
      CookieFine (hexDecode (argsOf line)).1)

theorem recordMechanisms_lands (line : List UInt8) :
    Lands .assertion (auth.alreadyGotMechanisms = false → WordsFine (argsOf line) 0)
      (recordMechanisms auth (argsOf line))
      (· = (true, { auth with mechsToTry := auth.mechsLeft line, alreadyGotMechanisms := true })) := by
  refine .ite (fun h => ?_) fun h => ?_
  · refine .congr (lands_done ?_)
      ⟨fun _ h' => absurd (h.symm.trans h') (by decide), fun _ => trivial⟩
    rw [DBusAuth.mechsLeft, if_pos h, ← h]
  · have h : auth.alreadyGotMechanisms = false := by simpa using h
    refine .congr ((recordLoop_lands auth.allowedMechs (argsOf line) ((argsOf line).length + 1) 0
      auth.mechsToTry (Nat.zero_le _) (by omega)).bind (d := True) ?_)
      ⟨fun hw _ => hw.1, fun hw => ⟨hw h, trivial⟩⟩
    rintro - _ rfl
    refine lands_done ?_
    simp [DBusAuth.mechsLeft, h, drop_zero]

theorem processRejected_moves (hl : IsRejected line) :
    Moves (auth.alreadyGotMechanisms = false → WordsFine (argsOf line) 0)
      (processRejected env auth (argsOf line)) (ClientMove env auth line) := by
  refine .congr ((recordMechanisms_lands line).bind (d := True) ?_) (Iff.of_eq (and_true _))
  rintro - _ rfl
  cases hm : auth.mechsLeft line with
  | nil => exact lands_done ⟨rfl, .gaveUp hl hm⟩
  | cons m rest =>
    have hsn : Lands Stop.assertion True (sendAuth env
        { auth with mechsToTry := m :: rest, alreadyGotMechanisms := true } m)
        (· = (true, { auth with mechsToTry := m :: rest, alreadyGotMechanisms := true }.tryMech env m)) :=
      .withMemory (lands_done rfl)
    change Lands _ True ((sendAuth env _ m).andThen fun auth => done { auth with mechsToTry := rest }) _
    refine AuthStep.andThen_lands hsn ?_
    exact lands_done ⟨rfl, .retried m rest hl hm⟩

theorem sendBegin_moves (hok : ClientOk auth) (hend : auth.state ≠ .authenticated)
    (hst : auth.state ≠ .clientWaitingForReject) (hcm : commandOf line = .ok) :
    Moves True (sendBegin auth (argsOf line)) (ClientMove env auth line) := by
  have ha : assert (auth.guidFromServer = []) = .ok () := assert_of (hok.guid hend)
  refine (lands_lift_ok ha).bind_true fun _ _ => .withMemory (.ite (fun _ => ?_) fun h => ?_)
  · exact lands_done ⟨rfl, .dropped (by simp [IsRejected, hcm])⟩
  · obtain ⟨heq, hne⟩ := not_or.1 h
    refine .withMemory (.withMemory
      (lands_done ⟨rfl, .begun hst hcm (fun hn => hne ?_) (not_not.1 heq)⟩))
    rw [hn]
    rfl

theorem sendCancel_moves (hst : auth.state ≠ .clientWaitingForReject) (hl : ¬ IsRejected line) :
    Moves True (sendCancel auth) (ClientMove env auth line) :=
  .withMemory (lands_done ⟨rfl, .cancelled hst hl⟩)

section
variable (hok : ClientOk auth) (hascii : validateAscii line = true)
include hok hascii

theorem handleClientStateWaitingForData_moves (hst : auth.state = .clientWaitingForData) :
    Moves ((commandOf line = .rejected → auth.alreadyGotMechanisms = false → WordsFine (argsOf line) 0) ∧
        (commandOf line = .data → auth.mech = some .cookieSha1 →
          (hexDecode (argsOf line)).2 = (argsOf line).length → CookieFine (hexDecode (argsOf line)).1))
      (handleClientStateWaitingForData env auth (commandOf line) (argsOf line))
      (ClientMove env auth line) := by
  have hne' : auth.state ≠ .clientWaitingForReject := by simp [hst]
  have htr : ∀ {c : AuthCommand} {p q : Prop}, c ≠ .rejected → c ≠ .data →
      (True ↔ (c = .rejected → p) ∧ (c = .data → q)) := fun hr hd =>
    ⟨fun _ => ⟨fun h => absurd h hr, fun h => absurd h hd⟩, fun _ => trivial⟩
  obtain ⟨m, hm⟩ := Option.ne_none_iff_exists'.1 hok.mech
  have hv : valueOr Stop.assertion auth.mech = .ok m := by rw [hm, valueOr_some]
  refine (lands_lift_ok hv).bind_eq ?_
  cases hcm : commandOf line with
  | data =>
    have hdt : Moves (m = .cookieSha1 → CookieFine (hexDecode (argsOf line)).1)
        (m.clientDataFunc env auth (hexDecode (argsOf line)).1) (ClientMove env auth line) := by
      cases m with
      | external | anonymous =>
        exact .congr (lands_done ⟨rfl, .ignored hst hcm⟩) (vacuous (by decide))
      | cookieSha1 =>
        refine .congr (handleClientDataCookieSha1Mech_moves.mono fun r hr => And.intro hr.1 ?_)
          ⟨fun h _ => h, fun h => h rfl⟩
        exact .answered _ hst hcm hm hr.2
    have her := not_isRejected hcm (by decide)
    refine .congr (processData_moves (.error _ (by decide) her) fun _ => hdt) ?_
    rw [hm]
    constructor
    · exact fun h => ⟨nofun, fun _ hb hx => h hx (Option.some.inj hb)⟩
    · exact fun h hx hb => h.2 rfl (by rw [hb]) hx
  | rejected =>
    exact (processRejected_moves ⟨hascii, hcm⟩).congr
      ⟨fun h => ⟨fun _ => h, nofun⟩, fun h => h.1 rfl⟩
  | ok => exact (sendBegin_moves hok (by simp [hst]) hne' hcm).congr (htr (by decide) (by decide))
  | error => exact (sendCancel_moves hne' (not_isRejected hcm (by decide))).congr (htr (by decide) (by decide))
  | _ =>
    have her := not_isRejected hcm (by decide)
    exact (sendError_moves (.error _ (by decide) her)).congr (htr (by decide) (by decide))

theorem handleClientStateWaitingForOk_moves (hst : auth.state = .clientWaitingForOk) :
    Moves (commandOf line = .rejected → auth.alreadyGotMechanisms = false → WordsFine (argsOf line) 0)
      (handleClientStateWaitingForOk env auth (commandOf line) (argsOf line))
      (ClientMove env auth line) := by
  have hne' : auth.state ≠ .clientWaitingForReject := by simp [hst]
  cases hcm : commandOf line with
  | rejected => exact (processRejected_moves ⟨hascii, hcm⟩).congr ⟨fun h _ => h, fun h => h rfl⟩
  | ok => exact (sendBegin_moves hok (by simp [hst]) hne' hcm).congr (vacuous (by decide))
  | data | error =>
    exact (sendCancel_moves hne' (not_isRejected hcm (by decide))).congr (vacuous (by decide))
  | _ =>
    have her := not_isRejected hcm (by decide)
    exact (sendError_moves (.error _ (by decide) her)).congr (vacuous (by decide))

end

theorem handleClientStateWaitingForReject_moves (hascii : validateAscii line = true) :
    Moves (commandOf line = .rejected → auth.alreadyGotMechanisms = false → WordsFine (argsOf line) 0)
      (handleClientStateWaitingForReject env auth (commandOf line) (argsOf line))
      (ClientMove env auth line) := by
  cases hcm : commandOf line with
  | rejected => exact (processRejected_moves ⟨hascii, hcm⟩).congr ⟨fun h _ => h, fun h => h rfl⟩
  | _ =>
    exact .congr (lands_done ⟨rfl, .dropped (not_isRejected hcm (by decide))⟩) (vacuous (by decide))

/-- **A line on the client**: it trips an assertion or is one of the moves. -/
theorem processLine_client (hok : ClientOk auth) (hend : auth.state.inEndState = false) :
    Moves (ClientFine auth line) (processLine env auth line) (ClientMove env auth line) := by
  by_cases hac : validateAscii line = true
  · rcases (by simpa using hok.state : _ ∨ _ ∨ _ ∨ _ ∨ _) with hst | hst | hst | hst | hst
    · exact (handler_moves hac hst (handleClientStateWaitingForData_moves hok hac hst)).congr
        (by simp [ClientFine, hac, hst])
    · exact (handler_moves hac hst (handleClientStateWaitingForOk_moves hok hac hst)).congr
        (by simp [ClientFine, hac, hst])
    · exact (handler_moves hac hst (handleClientStateWaitingForReject_moves hac)).congr
        (by simp [ClientFine, hac, hst])
    · rw [hst] at hend
      cases hend
    · rw [hst] at hend
      cases hend
  · rw [processLine, if_pos (by simpa using hac)]
    exact (sendError_moves (.error _ (by decide) fun hr => hac hr.1)).congr (vacuous hac)

end DBus
