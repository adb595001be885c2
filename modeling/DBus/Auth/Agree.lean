/-
  A client and a server that talk to each other.

  Each has its conversation; two channels carry the bytes between them, in whatever chunks.
  The two take turns: at any time at most one line is under way (`Phase`), so that the
  client has sent BEGIN only if the server waits for it, with the same mechanism.
-/
import DBus.Auth.Run

namespace DBus

open Outcome Alloc List DBusAuth

/-! ## The text of lines -/

def Unbroken (line : List UInt8) : Prop := 0x0d ∉ line

instance (line : List UInt8) : Decidable (Unbroken line) := inferInstanceAs (Decidable (0x0d ∉ line))

theorem unbroken_append {s t : List UInt8} : Unbroken (s ++ t) ↔ Unbroken s ∧ Unbroken t := by
  simp [Unbroken]

theorem findEol_prefix : ∀ {line rest incoming : List UInt8} {eol : ℕ}, Unbroken line →
    incoming <+: line ++ crlf ++ rest → findEol incoming = some eol →
      eol = line.length ∧ line ++ crlf <+: incoming
  | _, _, [], _, _, _, h => (nomatch h)
  | [], rest, c :: cs, eol, _, hpr, h => by
    obtain ⟨rfl, hcs⟩ := cons_prefix_cons.1 hpr
    cases cs with
    | nil => cases h
    | cons d ds =>
      obtain ⟨rfl, -⟩ := cons_prefix_cons.1 hcs
      have hcr : crlf <+: 0x0d :: 0x0a :: ds := ⟨ds, rfl⟩
      rw [findEol, if_pos hcr] at h
      exact ⟨(Option.some.inj h).symm, hcr⟩
  | b :: line, rest, c :: cs, eol, hl, hpr, h => by
    obtain ⟨rfl, hcs⟩ := cons_prefix_cons.1 hpr
    have hb : (0x0d : UInt8) ≠ c ∧ Unbroken line := by simpa [Unbroken] using hl
    have hcr : ¬ crlf <+: c :: cs := fun hp => hb.1 (cons_prefix_cons.1 hp).1
    rw [findEol, if_neg hcr] at h
    obtain ⟨n, hn, rfl⟩ := Option.map_eq_some_iff.1 h
    obtain ⟨hlen, hpr'⟩ := findEol_prefix hb.2 hcs hn
    exact ⟨by simp [hlen], cons_prefix_cons.2 ⟨rfl, hpr'⟩⟩

section
variable {w rest : List UInt8}

theorem firstBlank_word (hw : ∀ c ∈ w, isBlank c = false) : firstBlank (w ++ 0x20 :: rest) 0 = w.length := by
  have hnn : w.findIdx isBlank = w.length := findIdx_eq_length.2 (by simpa using hw)
  rw [firstBlank, drop_zero, findIdx_append, hnn, if_neg (Nat.lt_irrefl _)]
  simp [findIdx_cons, isBlank]

theorem behindBlanks_word (hrs : ∀ c ∈ rest.head?, isBlank c = false) :
    behindBlanks (w ++ 0x20 :: rest) w.length = w.length + 1 := by
  rw [behindBlanks, drop_left, findIdx_cons]
  cases rest with
  | nil => simp [isBlank]
  | cons c cs =>
    have hc : isBlank c = false := hrs c (by simp)
    simp [isBlank, findIdx_cons] at hc ⊢
    simp [hc]

section
variable (hw : ∀ c ∈ w, isBlank c = false)
include hw

theorem commandOf_word : commandOf (w ++ 0x20 :: rest) = lookupCommandFromName w := by
  rw [commandOf, firstBlank_word hw, take_left]

theorem argsOf_word (hrs : ∀ c ∈ rest.head?, isBlank c = false) :
    argsOf (w ++ 0x20 :: rest) = rest := by
  rw [argsOf, firstBlank_word hw, behindBlanks_word hrs]
  simp

end

end

theorem hexDigit_plain {n : UInt8} (h : n < 16) : hexDigit n ≠ 0x0d ∧ isBlank (hexDigit n) = false := by
  have hal : ∀ k < 16, hexDigit (UInt8.ofNat k) ≠ 0x0d ∧ isBlank (hexDigit (UInt8.ofNat k)) = false := by
    decide
  have hn := hal n.toNat (UInt8.lt_iff_toNat_lt.1 h)
  rwa [UInt8.ofNat_toNat] at hn

theorem hexEncode_plain (s : List UInt8) : ∀ c ∈ hexEncode s, c ≠ 0x0d ∧ isBlank c = false := by
  intro c hc
  obtain ⟨b, -, hb⟩ := mem_flatMap.1 hc
  have hh : b >>> 4 < 16 := by
    rw [UInt8.lt_iff_toNat_lt, UInt8.toNat_shiftRight]
    have := b.toNat_lt
    simp [Nat.shiftRight_eq_div_pow]
    omega
  have hl : b &&& 0x0f < 16 := by
    rw [UInt8.lt_iff_toNat_lt, UInt8.toNat_and]
    exact Nat.lt_of_le_of_lt Nat.and_le_right (by decide)
  rcases mem_cons.1 hb with rfl | hb
  · exact hexDigit_plain hh
  · rw [mem_singleton.1 hb]
    exact hexDigit_plain hl

theorem unbroken_hexEncode (s : List UInt8) : Unbroken (hexEncode s) := fun h =>
  (hexEncode_plain s _ h).1 rfl

theorem Mechanism.name_plain (m : Mechanism) : Unbroken m.name ∧ ∀ c ∈ m.name, isBlank c = false := by
  cases m <;> decide +kernel

/-- A line with its command. -/
structure Spells (line : List UInt8) (command : AuthCommand) : Prop where
  unbroken : Unbroken line
  command : commandOf line = command

theorem spells_word {w rest : List UInt8} {command : AuthCommand} (hw : ∀ c ∈ w, isBlank c = false)
    (hu : Unbroken w) (hc : lookupCommandFromName w = command) (hrs : Unbroken rest) :
    Spells (w ++ 0x20 :: rest) command :=
  ⟨unbroken_append.2 ⟨hu, by simpa [Unbroken] using hrs⟩, (commandOf_word hw).trans hc⟩

theorem authLine_spells (env : AuthEnv) (m : Mechanism) : ∃ line, authLine env m = line ++ crlf ∧
    Spells line .auth ∧ (argsOf line).take (firstBlank (argsOf line) 0) = m.name := by
  have hrs : Unbroken (m.initialResponse env) := by cases m <;> exact unbroken_hexEncode _
  obtain ⟨hu, hnm⟩ := m.name_plain
  have hh : ∀ c ∈ (m.name ++ 0x20 :: m.initialResponse env).head?, isBlank c = false := by
    cases m <;> simp [Mechanism.name, asciiBytes] <;> decide
  have har : argsOf (asciiBytes "AUTH" ++ 0x20 :: (m.name ++ 0x20 :: m.initialResponse env)) =
      m.name ++ 0x20 :: m.initialResponse env := argsOf_word (by decide +kernel) hh
  refine ⟨asciiBytes "AUTH" ++ 0x20 :: (m.name ++ 0x20 :: m.initialResponse env), ?_, ?_, ?_⟩
  · simp [authLine, asciiBytes]
    decide
  · refine spells_word (by decide +kernel) (by decide +kernel) (by decide +kernel) (unbroken_append.2 ⟨hu, ?_⟩)
    simpa [Unbroken] using hrs
  · rw [har, firstBlank_word hnm, take_left]

theorem dataLine_spells (data : List UInt8) : ∃ line, dataLine data = line ++ crlf ∧ Spells line .data := by
  rw [dataLine]
  split
  · exact ⟨asciiBytes "DATA", rfl, by decide, by decide⟩
  · exact ⟨asciiBytes "DATA" ++ 0x20 :: hexEncode data, by simp [asciiBytes]; decide,
      spells_word (by decide +kernel) (by decide +kernel) (by decide +kernel) (unbroken_hexEncode data)⟩

theorem errorLine_spells {message : String} (h : OneLine message) :
    ∃ line, errorLine message = line ++ crlf ∧ Spells line .error := by
  refine ⟨asciiBytes "ERROR" ++ 0x20 :: (0x22 :: asciiBytes message ++ asciiBytes "\""), ?_, ?_⟩
  · simp [errorLine, asciiBytes]
    decide
  · refine spells_word (by decide +kernel) (by decide +kernel) (by decide +kernel) ?_
    have hq : Unbroken (asciiBytes "\"") := by decide
    exact unbroken_append.2 ⟨by simpa [Unbroken, OneLine] using h, hq⟩

theorem rejectedLine_spells : ∃ line, rejectedLine = line ++ crlf ∧ Spells line .rejected :=
  ⟨asciiBytes "REJECTED" ++ allMechanisms.flatMap (fun m => 0x20 :: m.name), rfl, by decide, by decide⟩

theorem cancelLine_spells : Spells (asciiBytes "CANCEL") .cancel := ⟨by decide, by decide⟩

/-- A guid: hexadecimal digits, an even number of them, and at least one. -/
structure HexGuid (guid : List UInt8) : Prop where
  nonempty : guid ≠ []
  even : guid.length % 2 = 0
  digits : ∀ c ∈ guid, (hexValue c).isSome

theorem hexValue_plain {c : UInt8} (h : (hexValue c).isSome) : c ≠ 0x0d ∧ isBlank c = false := by
  constructor
  · rintro rfl
    simp [hexValue] at h
  · by_cases hb : c = 0x20 ∨ c = 0x09
    · rcases hb with rfl | rfl <;> simp [hexValue] at h
    · simpa [isBlank] using hb

theorem okLine_spells {guid : List UInt8} (h : HexGuid guid) :
    ∃ line, okLine guid = line ++ crlf ∧ Spells line .ok ∧ argsOf line = guid := by
  have hp : ∀ c ∈ guid, c ≠ 0x0d ∧ isBlank c = false := fun c hc => hexValue_plain (h.digits c hc)
  have hh : ∀ c ∈ guid.head?, isBlank c = false := fun c hc => (hp c (mem_of_mem_head? hc)).2
  refine ⟨asciiBytes "OK" ++ 0x20 :: guid, by simp [okLine, asciiBytes]; decide, ?_, ?_⟩
  · exact spells_word (by decide +kernel) (by decide +kernel) (by decide +kernel) fun hc => (hp _ hc).1 rfl
  · exact argsOf_word (by decide +kernel) hh

/-! ## Two conversations -/

/-- A client and a server, the bytes on the way to each of them, and what the client wrote
    behind its conversation. -/
structure AuthPair where
  client : DBusAuth
  server : DBusAuth
  toServer : List UInt8
  toClient : List UInt8
  written : List UInt8
deriving DecidableEq

/-- What is done with the two: bytes are sent or arrive, in chunks; `_dbus_auth_do_work` is
    called; one that is authenticated, and has sent all of its conversation, writes messages. -/
inductive PairEvent where
  | clientSends (n : ℕ)
  | serverSends (n : ℕ)
  | clientReads (n : ℕ)
  | serverReads (n : ℕ)
  | clientWorks (env : ℕ → AuthEnv)
  | serverWorks (env : ℕ → AuthEnv)
  | clientWrites (bytes : List UInt8)
  | serverWrites (bytes : List UInt8)

def PairEvent.run : PairEvent → AuthPair → Res AuthPair
  | .clientSends n, p => .ok { p with
      client := p.client.bytesSent n
      toServer := p.toServer ++ p.client.outgoing.take n }
  | .serverSends n, p => .ok { p with
      server := p.server.bytesSent n
      toClient := p.toClient ++ p.server.outgoing.take n }
  | .clientReads n, p => .ok { p with
      client := p.client.received (p.toClient.take n)
      toClient := p.toClient.drop n }
  | .serverReads n, p => .ok { p with
      server := p.server.received (p.toServer.take n)
      toServer := p.toServer.drop n }
  | .clientWorks env, p => (doWork env p.client .plenty).1.map fun client => { p with client := client }
  | .serverWorks env, p => (doWork env p.server .plenty).1.map fun server => { p with server := server }
  | .clientWrites bytes, p =>
    if p.client.state = .authenticated ∧ p.client.outgoing = [] then
      .ok { p with toServer := p.toServer ++ bytes, written := p.written ++ bytes }
    else .ok p
  | .serverWrites bytes, p =>
    if p.server.state = .authenticated ∧ p.server.outgoing = [] then
      .ok { p with toClient := p.toClient ++ bytes }
    else .ok p

def pairRun : List PairEvent → AuthPair → Res AuthPair
  | [], p => .ok p
  | e :: es, p => e.run p >>= pairRun es

def AuthPair.new (client server : DBusAuth) : AuthPair := ⟨client, server, [], [], []⟩

namespace AuthPair

/-- What is on its way from the client to the server, the oldest first. -/
def up (p : AuthPair) : List UInt8 := p.server.incoming ++ p.toServer ++ p.client.outgoing

/-- What is on its way from the server to the client. -/
def down (p : AuthPair) : List UInt8 := p.client.incoming ++ p.toClient ++ p.server.outgoing

end AuthPair

/-! ## Turns -/

/-- A line of the client is under way. -/
structure Asking (mech : Option Mechanism) (server : DBusAuth) (line : List UInt8) : Prop where
  unbroken : Unbroken line
  notBegin : commandOf line ≠ .begin
  auth : commandOf line = .auth →
    (∃ m, mech = some m ∧ (argsOf line).take (firstBlank (argsOf line) 0) = m.name) ∧
      (server.state = .serverWaitingForAuth ∨ server.state = .needDisconnect)
  data : server.state = .serverWaitingForData → server.mech = mech
  open_ : server.state ≠ .authenticated

/-- A line of the server is under way; an OK that is too long to be read stays without effect. -/
structure Answering (guid : List UInt8) (mech : Option Mechanism) (server : DBusAuth)
    (line : List UInt8) : Prop where
  unbroken : Unbroken line
  ok : commandOf line = .ok → argsOf line = guid ∧
    ((server.state = .serverWaitingForBegin ∧ server.mech = mech) ∨ maxBuffer < line.length + 2)
  rejected : commandOf line = .rejected →
    server.state = .serverWaitingForAuth ∨ server.state = .needDisconnect
  data : server.state = .serverWaitingForData → server.mech = mech
  open_ : server.state ≠ .authenticated

/-- The server has accepted the mechanism of the client, and the client knows its guid. -/
structure Joined (guid : List UInt8) (p : AuthPair) : Prop where
  client : p.client.state = .authenticated
  mech : p.server.mech = p.client.mech
  guid : p.client.guidFromServer = guid

/-- Whose turn it is. -/
inductive Phase (guid : List UInt8) (p : AuthPair) : Prop
  | asking (line : List UInt8) : p.client.state.inEndState = false → p.written = [] →
    p.up = line ++ crlf → p.down = [] → Asking p.client.mech p.server line → Phase guid p
  | answering (line : List UInt8) : p.client.state.inEndState = false → p.written = [] → p.up = [] →
    p.down = line ++ crlf → Answering guid p.client.mech p.server line → Phase guid p
  | stuck : p.client.state.inEndState = false → p.up = [] → p.down = [] →
    p.server.state ≠ .authenticated → Phase guid p
  | lost : p.client.state = .needDisconnect → Phase guid p
  | begun : Joined guid p → p.server.state = .serverWaitingForBegin → p.up = beginLine ++ p.written →
    p.down = [] → (p.client.outgoing = [] ∨ p.written = []) → Phase guid p
  | ended : Joined guid p → p.server.state = .needDisconnect →
    maxBuffer < p.server.incoming.length → Phase guid p
  | through : Joined guid p → p.server.state = .authenticated → p.up = p.written →
    p.client.outgoing = [] → Phase guid p

/-- What holds of the two all the time. -/
structure PairOk (guid : List UInt8) (p : AuthPair) : Prop where
  client : ClientOk p.client
  server : ServerOk p.server
  serverGuid : p.server.guid = guid
  phase : Phase guid p

variable {guid : List UInt8} {p : AuthPair} {env : AuthEnv} {server : DBusAuth} {eol : ℕ}
  {a : Allocator} {client : DBusAuth}

theorem Phase.moves (h : Phase guid p) {ci co si so toServer toClient : List UInt8} {cn sn : Bool}
    (hup : si ++ toServer ++ co = p.up) (hdw : ci ++ toClient ++ so = p.down)
    (hco : p.client.outgoing = [] → co = []) (hsi : p.server.incoming.length ≤ si.length) :
    Phase guid { p with
      client := { p.client with incoming := ci, outgoing := co, neededMemory := cn }
      server := { p.server with incoming := si, outgoing := so, neededMemory := sn }
      toServer := toServer
      toClient := toClient } := by
  cases h with
  | asking line hend hw hu hd ha =>
    exact .asking line hend hw (hup.trans hu) (hdw.trans hd)
      ⟨ha.unbroken, ha.notBegin, ha.auth, ha.data, ha.open_⟩
  | answering line hend hw hu hd ha =>
    exact .answering line hend hw (hup.trans hu) (hdw.trans hd)
      ⟨ha.unbroken, ha.ok, ha.rejected, ha.data, ha.open_⟩
  | stuck hend hu hd hs => exact .stuck hend (hup.trans hu) (hdw.trans hd) hs
  | lost hc => exact .lost hc
  | begun hj hs hu hd hw =>
    exact .begun ⟨hj.client, hj.mech, hj.guid⟩ hs (hup.trans hu) (hdw.trans hd) (hw.imp_left hco)
  | ended hj hs hlen => exact .ended ⟨hj.client, hj.mech, hj.guid⟩ hs (Nat.lt_of_lt_of_le hlen hsi)
  | through hj hs hu hc => exact .through ⟨hj.client, hj.mech, hj.guid⟩ hs (hup.trans hu) (hco hc)

/-! ## The turn of the server -/

theorem Mechanism.name_injective {m m' : Mechanism} (h : m.name = m'.name) : m = m' := by
  cases m <;> cases m' <;> first | rfl | exact absurd h (by decide)

section
variable {mech : Option Mechanism} {server' client' : DBusAuth} {line : List UInt8}
  {command : AuthCommand}

theorem answering_of_spells (h : Spells line command) (hok : command ≠ .ok)
    (hrj : command ≠ .rejected)
    (hdt : server.state = .serverWaitingForData → server.mech = mech)
    (ho : server.state ≠ .authenticated) : Answering guid mech server line :=
  ⟨h.unbroken, fun hc => absurd (h.command.symm.trans hc) hok,
    fun hc => absurd (h.command.symm.trans hc) hrj, hdt, ho⟩

theorem reject_answers (server : DBusAuth) : ∃ answer,
    (server.reject rejectedLine).outgoing = server.outgoing ++ (answer ++ crlf) ∧
      Answering guid mech (server.reject rejectedLine) answer := by
  obtain ⟨answer, hl, hsp⟩ := rejectedLine_spells
  have hsta : (server.reject rejectedLine).state = .serverWaitingForAuth ∨
      (server.reject rejectedLine).state = .needDisconnect := by
    rw [reject_eq]
    split
    · exact .inr rfl
    · exact .inl rfl
  refine ⟨answer, by rw [reject_eq, hl], hsp.unbroken, ?_, fun _ => hsta, ?_, ?_⟩
  · exact fun hc => absurd (hsp.command.symm.trans hc) (by decide)
  · intro hst
    rcases hsta with h | h <;> exact absurd (h.symm.trans hst) (by decide)
  · intro hst
    rcases hsta with h | h <;> exact absurd (h.symm.trans hst) (by decide)

section
variable (hguid : HexGuid guid) (server : DBusAuth)
include hguid

theorem accept_answers (hg : server.guid = guid) (hm : server.mech = mech) : ∃ answer,
    server.accept.outgoing = server.outgoing ++ (answer ++ crlf) ∧
      Answering guid mech server.accept answer := by
  obtain ⟨answer, hl, hsp, har⟩ := okLine_spells hguid
  refine ⟨answer, by rw [← hl, ← hg]; rfl, hsp.unbroken, fun _ => ⟨har, .inl ⟨rfl, hm⟩⟩, ?_, ?_, ?_⟩
  · exact fun hc => absurd (hsp.command.symm.trans hc) (by decide)
  · exact nofun
  · exact nofun

theorem dataMove_answers {m : Mechanism} {data : List UInt8} (hg : server.guid = guid)
    (hm : server.mech = some m) (h : DataMove env server data m server') :
    ∃ answer, server'.outgoing = server.outgoing ++ (answer ++ crlf) ∧
      Answering guid (some m) server' answer := by
  cases h with
  | rejected _ keyring => exact reject_answers { server with keyring := keyring }
  | poked =>
    obtain ⟨answer, hl, hsp⟩ := dataLine_spells []
    exact ⟨answer, by rw [← hl]; rfl,
      answering_of_spells hsp (by decide) (by decide) (fun _ => hm) (nofun)⟩
  | external identity desired =>
    exact accept_answers hguid { server with
      identity := identity
      desiredIdentity := desired
      authorizedIdentity :=
        server.authorizedIdentity.addingAll (externalGrant desired server.credentials) } hg hm
  | challenged identity u id keyring keyring' =>
    obtain ⟨answer, hl, hsp⟩ := dataLine_spells (challengeData { server with cookieId := id }
      (hexEncode env.randomBytes))
    exact ⟨answer, by rw [← hl]; rfl,
      answering_of_spells hsp (by decide) (by decide) (fun _ => hm) (nofun)⟩
  | cookie keyring clientChallenge =>
    exact accept_answers hguid { server with authorizedIdentity := _ } hg hm
  | anonymous =>
    exact accept_answers hguid { server with
      desiredIdentity := .empty, authorizedIdentity := _ } hg hm

end

theorem serverMove_guid (h : ServerMove env server line server') : server'.guid = server.guid := by
  cases h with
  | rejected => rw [reject_eq]
  | data m data _ _ hdt =>
    cases hdt with
    | rejected => rw [reject_eq]
    | _ => rfl
  | _ => rfl

theorem server_answers (hguid : HexGuid guid) (hg : server.guid = guid) (ha : Asking mech server line)
    (hmv : ServerMove env server line server') :
    ∃ answer, server'.outgoing = server.outgoing ++ (answer ++ crlf) ∧
      Answering guid mech server' answer := by
  cases hmv with
  | error m message ho hm =>
    obtain ⟨answer, hl, hsp⟩ := errorLine_spells ho
    refine ⟨answer, by rw [← hl]; rfl, answering_of_spells hsp (by decide) (by decide) ?_ ha.open_⟩
    intro hst
    rcases hm with hat | rfl
    · exact absurd (hat.symm.trans hst) (by decide)
    · exact ha.data hst
  | rejected m hm => exact reject_answers { server with mech := m }
  | data m data _ hrs hdt =>
    have hm : mech = some m := by
      rcases hrs with ⟨-, hcm, hfn, -⟩ | ⟨hst, -, hmc, -⟩
      · obtain ⟨⟨m', rfl, hnm⟩, -⟩ := ha.auth hcm
        rw [Mechanism.name_injective ((findMech_name hfn).trans hnm)]
      · exact (ha.data hst).symm.trans hmc
    rw [hm]
    exact dataMove_answers hguid { server with mech := some m } hg rfl hdt
  | begun _ hcm | dropped _ hcm => exact absurd hcm ha.notBegin

/-! ## The turn of the client -/

theorem asking_of_spells (h : Spells line command) (hat : command ≠ .auth) (hb : command ≠ .begin)
    (hdt : server.state = .serverWaitingForData → server.mech = mech)
    (ho : server.state ≠ .authenticated) : Asking mech server line :=
  ⟨h.unbroken, fun hc => hb (h.command.symm.trans hc),
    fun hc => absurd (h.command.symm.trans hc) hat, hdt, ho⟩

/-- What becomes of the turn once the client has read a line of the server: it asks with a
    line of its own, has begun, is stuck or lost. -/
inductive Asks (guid : List UInt8) (server client client' : DBusAuth) : Prop
  | asks (line : List UInt8) : client'.state.inEndState = false →
    client'.outgoing = client.outgoing ++ (line ++ crlf) → Asking client'.mech server line →
    Asks guid server client client'
  | begun : client'.state = .authenticated → client'.outgoing = client.outgoing ++ beginLine →
    server.mech = client'.mech → client'.guidFromServer = guid →
    server.state = .serverWaitingForBegin → Asks guid server client client'
  | stuck : client' = client → Asks guid server client client'
  | lost : client'.state = .needDisconnect → Asks guid server client client'

theorem client_asks (hend : client.state.inEndState = false) (hlen : line.length + 2 ≤ maxBuffer)
    (ha : Answering guid client.mech server line) (hm : ClientMove env client line client') :
    Asks guid server client client' := by
  have her : ∀ (keyring : Option DBusKeyring) {message : String}, OneLine message →
      Asks guid server client ({ client with keyring := keyring }.send (errorLine message)) := by
    intro keyring message ho
    obtain ⟨answer, hl, hsp⟩ := errorLine_spells ho
    exact .asks answer hend (by rw [← hl]; rfl)
      (asking_of_spells hsp (by decide) (by decide) ha.data ha.open_)
  cases hm with
  | error message ho => exact her client.keyring ho
  | answered _ _ _ _ han =>
    cases han with
    | error keyring message ho => exact her keyring ho
    | data keyring data _ =>
      obtain ⟨answer, hl, hsp⟩ := dataLine_spells data
      exact .asks answer hend (by rw [← hl]; rfl)
        (asking_of_spells hsp (by decide) (by decide) ha.data ha.open_)
  | ignored => exact .stuck rfl
  | retried m rest hcm =>
    obtain ⟨answer, hl, hsp, hnm⟩ := authLine_spells env m
    have hsta := ha.rejected hcm.2
    refine .asks answer rfl ?_ ⟨hsp.unbroken, ?_, fun _ => ⟨⟨m, rfl, hnm⟩, hsta⟩, ?_, ha.open_⟩
    · rw [tryMech, shutdownMech_eq, ← hl]
      rfl
    · exact fun hc => absurd (hsp.command.symm.trans hc) (by decide)
    · intro hst
      rcases hsta with h | h <;> exact absurd (h.symm.trans hst) (by decide)
  | gaveUp => exact .lost rfl
  | begun _ hcm =>
    obtain ⟨har, hsr | hln⟩ := ha.ok hcm
    · exact .begun rfl rfl hsr.2 har hsr.1
    · omega
  | cancelled =>
    exact .asks (asciiBytes "CANCEL") rfl rfl
      (asking_of_spells cancelLine_spells (by decide) (by decide) ha.data ha.open_)
  | dropped => exact .lost rfl

end

/-! ## Calls of `_dbus_auth_do_work` -/

theorem workLoop_keeps {J : DBusAuth → Prop} (env : ℕ → AuthEnv) (hJ : ∀ auth, J auth → AuthOk auth)
    (ho : ∀ auth, J auth → auth.state.inEndState = false →
      auth.incoming.length > maxBuffer ∨ auth.outgoing.length > maxBuffer →
      J (auth.gotoState .needDisconnect))
    (hrn : ∀ (env : AuthEnv) auth auth' eol, J auth → Waits auth → findEol auth.incoming = some eol →
      AuthMove env auth (auth.incoming.take eol) auth' →
      processCommand env auth .plenty = (.ok (true, auth'.dropLine eol), .plenty) →
      J (auth'.dropLine eol)) :
    ∀ (fuel : ℕ) (auth s : DBusAuth) (a : Allocator), J auth →
      workLoop env fuel auth .plenty = (.ok s, a) → J s
  | 0, _, _, _, _, h => (nomatch h)
  | fuel + 1, auth, s, a, hj, h => by
    rw [workLoop] at h
    split at h
    · cases h
      exact hj
    split at h
    · cases h
      exact ho auth hj (by simpa using ‹¬ auth.state.inEndState = true›) ‹_›
    have hend : auth.state.inEndState = false := by simpa using ‹¬ auth.state.inEndState = true›
    have hcm : Lands Stop.assertion (HeadFine auth) (processCommand (env auth.incoming.length) auth)
        (Round (env auth.incoming.length) auth) := processCommand_lands (hJ auth hj) hend
    by_cases hf : HeadFine auth
    · obtain ⟨r, hr, hrn'⟩ := hcm.returns hf
      rw [bind_of_ok hr] at h
      rcases hrn' with ⟨-, rfl⟩ | ⟨eol, auth', hel, hm, rfl⟩
      · cases h
        exact hj
      · have hw : Waits auth := ⟨hend, by omega, by omega⟩
        exact workLoop_keeps env hJ ho hrn fuel _ s a (hrn _ auth auth' eol hj hw hel hm hr) h
    · simp [bind_of_error (hcm.stops hf)] at h

theorem processCommand_begin (hst : server.state = .serverWaitingForBegin)
    (hel : findEol server.incoming = some 5)
    (hl : server.incoming.take 5 = asciiBytes "BEGIN") : processCommand env server .plenty =
      (.ok (true, (server.gotoState .authenticated).dropLine 5), .plenty) := by
  have hp : processLine env server (asciiBytes "BEGIN") .plenty =
      (.ok (true, server.gotoState .authenticated), .plenty) := by
    rw [processLine, if_neg (by decide)]
    refine (lift_bind (b := (false, 5)) (by decide) _ _).trans ?_
    refine (lift_bind (b := 5) (by decide +kernel) _ _).trans ?_
    rw [withMemory_plenty, hst]
    rfl
  rw [processCommand, hel]
  dsimp only
  rw [withMemory_plenty, hl]
  exact bind_of_ok hp _

theorem arrived {line rest incoming sent : List UInt8} (hl : Unbroken line)
    (h : incoming ++ sent = line ++ crlf ++ rest) (hel : findEol incoming = some eol) :
    eol = line.length ∧ incoming.take eol = line ∧ incoming.drop (eol + 2) ++ sent = rest := by
  obtain ⟨rfl, t, ht⟩ := findEol_prefix hl ⟨sent, h⟩ hel
  rw [← ht] at h ⊢
  refine ⟨rfl, by simp, ?_⟩
  have hrs : t ++ sent = rest := by simpa using h
  simpa [crlf] using hrs

/-- The server of a pair, with what holds of it. -/
structure ServerTurn (guid : List UInt8) (p : AuthPair) (server : DBusAuth) : Prop where
  ok : ServerOk server
  serverGuid : server.guid = guid
  phase : Phase guid { p with server := server }

theorem ServerTurn.over (h : ServerTurn guid p server) (hend : server.state.inEndState = false)
    (hb : server.incoming.length > maxBuffer ∨ server.outgoing.length > maxBuffer) :
    ServerTurn guid p (server.gotoState .needDisconnect) := by
  refine ⟨?_, h.serverGuid, ?_⟩
  · exact ⟨h.ok.side, by simp [gotoState], (by rintro ⟨⟩), (by rintro ⟨⟩),
      h.ok.keyring, h.ok.cookie⟩
  cases h.phase with
  | asking line hc hw hu hd ha =>
    exact .asking line hc hw hu hd ⟨ha.unbroken, ha.notBegin, fun hcm => ⟨(ha.auth hcm).1, .inr rfl⟩,
      (by rintro ⟨⟩), (by rintro ⟨⟩)⟩
  | answering line hc hw hu hd ha =>
    -- nothing has arrived, so that it is the line it sends that is too long
    have hin : server.incoming = [] := by
      have hu : server.incoming ++ p.toServer ++ p.client.outgoing = [] := hu
      simp only [append_eq_nil_iff] at hu
      exact hu.1.1
    have hl : maxBuffer < line.length + 2 := by
      have hd : p.client.incoming ++ p.toClient ++ server.outgoing = line ++ crlf := hd
      have hlen := congrArg List.length hd
      simp only [length_append, crlf, length_cons, length_nil] at hlen
      rw [hin] at hb
      simp only [length_nil] at hb
      omega
    exact .answering line hc hw hu hd ⟨ha.unbroken, fun hcm => ⟨(ha.ok hcm).1, .inr hl⟩,
      fun _ => .inr rfl, (by rintro ⟨⟩), (by rintro ⟨⟩)⟩
  | stuck hc hu hd _ => exact .stuck hc hu hd (by rintro ⟨⟩)
  | lost hc => exact .lost hc
  | begun hj _ _ hd _ =>
    have ho : server.outgoing = [] := by
      have hd : p.client.incoming ++ p.toClient ++ server.outgoing = [] := hd
      simp only [append_eq_nil_iff] at hd
      exact hd.2
    rw [ho] at hb
    exact .ended ⟨hj.client, hj.mech, hj.guid⟩ rfl (hb.resolve_right (Nat.not_lt_zero _))
  | ended _ hs | through _ hs => exact absurd hend (by rw [show server.state = _ from hs]; decide)

theorem ServerTurn.round (hguid : HexGuid guid) {server' : DBusAuth}
    (h : ServerTurn guid p server) (hw : Waits server) (hel : findEol server.incoming = some eol)
    (hm : ServerMove env server (server.incoming.take eol) server')
    (hcm : processCommand env server .plenty = (.ok (true, server'.dropLine eol), .plenty)) :
    ServerTurn guid p (server'.dropLine eol) := by
  have hok := serverOk_move h.ok hm
  refine ⟨⟨hok.side, hok.state, hok.waitingForAuth, hok.waitingForData, hok.keyring, hok.cookie⟩,
    (serverMove_guid hm).trans h.serverGuid, ?_⟩
  have hi : server'.incoming = server.incoming := by
    have hm : AuthMove env server (server.incoming.take eol) server' := by
      rw [AuthMove, h.ok.side]
      exact hm
    exact hm.incoming (.inl h.ok)
  have hnn : server.incoming ≠ [] := by
    intro hin
    rw [hin] at hel
    cases hel
  cases h.phase with
  | asking line hc hwr hu hd ha =>
    have hu : server.incoming ++ (p.toServer ++ p.client.outgoing) = line ++ crlf ++ [] := by
      rw [append_nil, ← append_assoc]
      exact hu
    obtain ⟨-, hl, hrs⟩ := arrived ha.unbroken hu hel
    rw [hl] at hm
    obtain ⟨answer, ho, han⟩ := server_answers hguid h.serverGuid ha hm
    refine .answering answer hc hwr ?_ ?_ ⟨han.unbroken, han.ok, han.rejected, han.data, han.open_⟩
    · change server'.incoming.drop (eol + 2) ++ p.toServer ++ p.client.outgoing = []
      rw [hi, append_assoc]
      exact hrs
    · change p.client.incoming ++ p.toClient ++ server'.outgoing = answer ++ crlf
      have hd : p.client.incoming ++ p.toClient ++ server.outgoing = [] := hd
      rw [ho, ← append_assoc, hd, nil_append]
  | answering line _ _ hu | stuck _ hu =>
    have hu : server.incoming ++ p.toServer ++ p.client.outgoing = [] := hu
    simp only [append_eq_nil_iff] at hu
    exact absurd hu.1.1 hnn
  | lost hc => exact .lost hc
  | begun hj hs hu hd ho =>
    have hu : server.incoming ++ (p.toServer ++ p.client.outgoing) =
        asciiBytes "BEGIN" ++ crlf ++ p.written := by
      rw [← append_assoc]
      exact hu
    obtain ⟨rfl, hl, hrs⟩ := arrived (by decide) hu hel
    have hb : processCommand env server .plenty = _ := processCommand_begin hs hel hl
    rw [hb] at hcm
    have hsr : server'.dropLine (asciiBytes "BEGIN").length =
        (server.gotoState .authenticated).dropLine 5 := by
      have := congrArg Prod.fst hcm
      simpa using this.symm
    rw [hsr]
    have hsn : p.client.outgoing = [] := by
      rcases ho with ho | hwt
      · exact ho
      · have hwt : p.written = [] := hwt
        rw [hwt] at hrs
        simp only [append_eq_nil_iff] at hrs
        exact hrs.2.2
    refine .through ⟨hj.client, hj.mech, hj.guid⟩ rfl ?_ hsn
    change server.incoming.drop (5 + 2) ++ p.toServer ++ p.client.outgoing = p.written
    rw [append_assoc]
    exact hrs
  | ended _ hs | through _ hs => exact absurd hw.1 (by rw [show server.state = _ from hs]; decide)

theorem PairOk.serverWorks (hguid : HexGuid guid) (h : PairOk guid p) (env : ℕ → AuthEnv)
    (hwr : doWork env p.server .plenty = (.ok server, a)) :
    PairOk guid { p with server := server } := by
  have hst : ServerTurn guid p { p.server with neededMemory := false } := by
    have hok := h.server
    refine ⟨⟨hok.side, hok.state, hok.waitingForAuth, hok.waitingForData, hok.keyring, hok.cookie⟩,
      h.serverGuid, h.phase.moves rfl rfl id (Nat.le_refl _)⟩
  have htr : ServerTurn guid p server := by
    refine workLoop_keeps (J := ServerTurn guid p) env (fun _ ht => .inl ht.ok)
      (fun _ ht hend hb => ht.over hend hb) ?_ _ _ server a hst hwr
    intro env auth auth' eol ht hw hel hm hcm
    rw [AuthMove, ht.ok.side] at hm
    exact ht.round hguid hw hel hm hcm
  exact ⟨h.client, htr.ok, htr.serverGuid, htr.phase⟩

/-- The client of a pair, with what holds of it. -/
structure ClientTurn (guid : List UInt8) (p : AuthPair) (client : DBusAuth) : Prop where
  ok : ClientOk client
  phase : Phase guid { p with client := client }

theorem ClientTurn.over (h : ClientTurn guid p client) (hend : client.state.inEndState = false) :
    ClientTurn guid p (client.gotoState .needDisconnect) := by
  exact ⟨h.ok.disconnect hend, .lost rfl⟩

theorem ClientTurn.round {client' : DBusAuth} (h : ClientTurn guid p client) (hw : Waits client)
    (hel : findEol client.incoming = some eol)
    (hmv : ClientMove env client (client.incoming.take eol) client') :
    ClientTurn guid p (client'.dropLine eol) := by
  have ho : client.state ≠ .authenticated := by
    intro hc
    have := hw.1
    rw [hc] at this
    cases this
  have hok := clientOk_move h.ok ho hmv
  refine ⟨⟨hok.side, hok.state, hok.mech, hok.guid⟩, ?_⟩
  have hi : client'.incoming = client.incoming := by
    have hmv : AuthMove env client (client.incoming.take eol) client' := by
      rw [AuthMove, h.ok.side]
      exact hmv
    exact hmv.incoming (.inr h.ok)
  have hnn : p.toClient ++ p.server.outgoing = [] → client.incoming ≠ [] := by
    intro _ hin
    rw [hin] at hel
    cases hel
  have hdw : ∀ {down : List UInt8}, client.incoming ++ p.toClient ++ p.server.outgoing = down →
      down ≠ [] := by
    rintro down rfl hd
    simp only [append_eq_nil_iff] at hd
    exact hnn (by simp [hd]) hd.1.1
  cases h.phase with
  | asking _ _ _ _ hd | stuck _ _ hd => exact absurd rfl (hdw hd)
  | lost hc => exact absurd hw.1 (by rw [show client.state = _ from hc]; decide)
  | begun hj | ended hj | through hj => exact absurd hj.client ho
  | answering line hend hwr hu hd ha =>
    have hu : p.server.incoming ++ p.toServer ++ client.outgoing = [] := hu
    have hd : client.incoming ++ (p.toClient ++ p.server.outgoing) = line ++ crlf ++ [] := by
      rw [append_nil, ← append_assoc]
      exact hd
    obtain ⟨-, hl, hrs⟩ := arrived ha.unbroken hd hel
    -- all of the line has arrived, and it was not too long
    have hlen : line.length + 2 ≤ maxBuffer := by
      have hsn : p.toClient ++ p.server.outgoing = [] := (append_eq_nil_iff.1 hrs).2
      rw [hsn, append_nil, append_nil] at hd
      have := congrArg List.length hd
      simp only [length_append, crlf, length_cons, length_nil] at this
      have := hw.2.1
      omega
    have hdw' : client'.incoming.drop (eol + 2) ++ p.toClient ++ p.server.outgoing = [] := by
      rw [hi, append_assoc]
      exact hrs
    rw [hl] at hmv
    cases client_asks hend hlen ha hmv with
    | asks answer he' hot hak =>
      refine .asking answer he' hwr ?_ hdw'
        ⟨hak.unbroken, hak.notBegin, hak.auth, hak.data, hak.open_⟩
      change p.server.incoming ++ p.toServer ++ client'.outgoing = answer ++ crlf
      rw [hot, ← append_assoc, hu, nil_append]
    | begun hc hot hm hg hs =>
      refine .begun ⟨hc, hm, hg⟩ hs ?_ hdw' (.inr hwr)
      change p.server.incoming ++ p.toServer ++ client'.outgoing = beginLine ++ p.written
      rw [hot, ← append_assoc, hu, show p.written = [] from hwr, append_nil, nil_append]
    | stuck heq =>
      subst heq
      exact .stuck hend hu hdw' ha.open_
    | lost hc => exact .lost hc

theorem PairOk.clientWorks (h : PairOk guid p) (env : ℕ → AuthEnv)
    (hwr : doWork env p.client .plenty = (.ok client, a)) :
    PairOk guid { p with client := client } := by
  have hst : ClientTurn guid p { p.client with neededMemory := false } := by
    have hok := h.client
    exact ⟨⟨hok.side, hok.state, hok.mech, hok.guid⟩, h.phase.moves rfl rfl id (Nat.le_refl _)⟩
  have htr : ClientTurn guid p client := by
    refine workLoop_keeps (J := ClientTurn guid p) env (fun _ ht => .inr ht.ok)
      (fun _ ht hend _ => ht.over hend) ?_ _ _ client a hst hwr
    intro env auth auth' eol ht hw hel hm _
    rw [AuthMove, ht.ok.side] at hm
    exact ht.round hw hel hm
  exact ⟨htr.ok, h.server, h.serverGuid, htr.phase⟩

/-! ## Runs of the two -/

theorem ServerOk.buffers (h : ServerOk server) (incoming outgoing : List UInt8) :
    ServerOk { server with incoming := incoming, outgoing := outgoing } :=
  ⟨h.side, h.state, h.waitingForAuth, h.waitingForData, h.keyring, h.cookie⟩

theorem ClientOk.buffers (h : ClientOk client) (incoming outgoing : List UInt8) :
    ClientOk { client with incoming := incoming, outgoing := outgoing } :=
  ⟨h.side, h.state, h.mech, h.guid⟩

theorem Phase.clientWrites (h : Phase guid p) (hc : p.client.state = .authenticated)
    (ho : p.client.outgoing = []) (bytes : List UInt8) :
    Phase guid { p with toServer := p.toServer ++ bytes, written := p.written ++ bytes } := by
  have hup : ∀ {sent : List UInt8}, p.up = sent →
      p.server.incoming ++ (p.toServer ++ bytes) ++ p.client.outgoing = sent ++ bytes := by
    rintro sent rfl
    rw [AuthPair.up, ho]
    simp
  have hend : p.client.state.inEndState = true := by rw [hc]; rfl
  cases h with
  | asking _ h | answering _ h | stuck h => exact absurd (h.symm.trans hend) (by decide)
  | lost h => exact .lost h
  | begun hj hs hu hd _ =>
    exact .begun ⟨hj.client, hj.mech, hj.guid⟩ hs ((hup hu).trans (append_assoc ..)) hd (.inl ho)
  | ended hj hs hlen => exact .ended ⟨hj.client, hj.mech, hj.guid⟩ hs hlen
  | through hj hs hu _ => exact .through ⟨hj.client, hj.mech, hj.guid⟩ hs (hup hu) ho

theorem Phase.serverWrites (h : Phase guid p) (hs : p.server.state = .authenticated)
    (bytes : List UInt8) : Phase guid { p with toClient := p.toClient ++ bytes } := by
  cases h with
  | asking _ _ _ _ _ ha | answering _ _ _ _ _ ha => exact absurd hs ha.open_
  | stuck _ _ _ ho => exact absurd hs ho
  | lost h => exact .lost h
  | begun _ hs' | ended _ hs' => exact absurd (hs'.symm.trans hs) (by decide)
  | through hj hs hu hot => exact .through ⟨hj.client, hj.mech, hj.guid⟩ hs hu hot

theorem PairOk.run (hguid : HexGuid guid) (h : PairOk guid p) (e : PairEvent) {q : AuthPair}
    (he : e.run p = .ok q) : PairOk guid q := by
  cases e with
  | clientSends n =>
    cases he
    refine ⟨h.client.buffers p.client.incoming _, h.server, h.serverGuid,
      h.phase.moves ?_ rfl (fun ho => ?_) (Nat.le_refl _)⟩
    · rw [AuthPair.up]
      simp
    · rw [ho, drop_nil]
  | serverSends n =>
    cases he
    refine ⟨h.client, h.server.buffers p.server.incoming _, h.serverGuid,
      h.phase.moves rfl ?_ id (Nat.le_refl _)⟩
    rw [AuthPair.down]
    simp
  | clientReads n =>
    cases he
    refine ⟨h.client.buffers _ p.client.outgoing, h.server, h.serverGuid,
      h.phase.moves rfl ?_ id (Nat.le_refl _)⟩
    rw [AuthPair.down]
    simp
  | serverReads n =>
    cases he
    refine ⟨h.client, h.server.buffers _ p.server.outgoing, h.serverGuid,
      h.phase.moves ?_ rfl id (by simp)⟩
    rw [AuthPair.up]
    simp
  | clientWorks env =>
    rw [PairEvent.run] at he
    cases ho : (doWork env p.client .plenty).1 with
    | error e =>
      rw [ho] at he
      cases he
    | ok client =>
      rw [ho] at he
      cases he
      exact h.clientWorks env (Prod.ext ho rfl)
  | serverWorks env =>
    rw [PairEvent.run] at he
    cases ho : (doWork env p.server .plenty).1 with
    | error e =>
      rw [ho] at he
      cases he
    | ok server =>
      rw [ho] at he
      cases he
      exact h.serverWorks hguid env (Prod.ext ho rfl)
  | clientWrites bytes =>
    rw [PairEvent.run] at he
    split at he
    · rename_i hc
      cases he
      exact ⟨h.client, h.server, h.serverGuid, h.phase.clientWrites hc.1 hc.2 bytes⟩
    · cases he
      exact h
  | serverWrites bytes =>
    rw [PairEvent.run] at he
    split at he
    · rename_i hs
      cases he
      exact ⟨h.client, h.server, h.serverGuid, h.phase.serverWrites hs.1 bytes⟩
    · cases he
      exact h

theorem PairOk.pairRun (hguid : HexGuid guid) : ∀ (es : List PairEvent) {p q : AuthPair},
    PairOk guid p → DBus.pairRun es p = .ok q → PairOk guid q
  | [], p, q, h, hrn => by
    cases hrn
    exact h
  | e :: es, p, q, h, hrn => by
    rw [DBus.pairRun] at hrn
    cases he : e.run p with
    | error err => simp [he] at hrn
    | ok p' =>
      rw [he] at hrn
      exact PairOk.pairRun hguid es (h.run hguid e he) hrn

theorem pairOk_new (env : AuthEnv) (credentials credentials' : DBusCredentials)
    (allowed allowed' : Option (List (List UInt8))) (guid context : List UInt8) :
    PairOk guid (.new (.clientNew env credentials allowed)
      (.serverNew guid credentials' allowed' context)) := by
  have hng : ¬ (0 : ℤ) ≤ -1 := by decide
  obtain ⟨line, hl, hsp, hnm⟩ := authLine_spells env .external
  refine ⟨⟨rfl, by simp [AuthPair.new, clientNew], by simp [AuthPair.new, clientNew],
    fun _ => rfl⟩, ⟨rfl, by simp [AuthPair.new, serverNew, new], fun _ => not_le.1 hng,
    (by rintro ⟨⟩), fun h => absurd h hng, fun h => absurd h hng⟩, rfl, ?_⟩
  refine .asking line rfl rfl hl rfl ⟨hsp.unbroken, ?_, fun _ => ⟨⟨_, rfl, hnm⟩, .inl rfl⟩, ?_, ?_⟩
  · exact fun hc => absurd (hsp.command.symm.trans hc) (by decide)
  · rintro ⟨⟩
  · rintro ⟨⟩

/-- A server that the client may talk to: it has accepted the mechanism the client uses, the
    client knows its guid, and it has, or is about to get, what the client wrote. -/
structure Agree (q : AuthPair) : Prop where
  state : q.server.state = .serverWaitingForBegin ∨ q.server.state = .authenticated ∨
    (q.server.state = .needDisconnect ∧ maxBuffer < q.server.incoming.length)
  mech : q.client.mech ≠ none ∧ q.server.mech = q.client.mech
  guid : q.client.guidFromServer = q.server.guid
  unused : q.server.state = .authenticated →
    ∃ unused, q.server.unusedBytes = some unused ∧ unused ++ q.toServer = q.written

/-- **Agreement**: whatever the order of events and the chunks, whenever the client is
    authenticated, the server has accepted its mechanism and waits for BEGIN, is
    authenticated, or has had too many bytes at once. -/
theorem pairRun_agrees (hguid : HexGuid guid) (env : AuthEnv)
    (credentials credentials' : DBusCredentials) (allowed allowed' : Option (List (List UInt8)))
    (context : List UInt8) (es : List PairEvent) {q : AuthPair}
    (hrun : pairRun es (.new (.clientNew env credentials allowed)
      (.serverNew guid credentials' allowed' context)) = .ok q)
    (hc : q.client.state = .authenticated) : Agree q := by
  have hok := PairOk.pairRun hguid es
    (pairOk_new env credentials credentials' allowed allowed' guid context) hrun
  have hend : q.client.state.inEndState = true := by rw [hc]; rfl
  -- the client is authenticated in three of the phases
  have hjn : ∀ {state : AuthStateData}, Joined guid q → q.server.state = state →
      (state = .serverWaitingForBegin ∨ state = .authenticated ∨
        (state = .needDisconnect ∧ maxBuffer < q.server.incoming.length)) →
      (state = .authenticated → q.server.incoming ++ q.toServer = q.written) → Agree q := by
    rintro state hj rfl hst hun
    refine ⟨hst, ⟨hok.client.mech, hj.mech⟩, hj.guid.trans hok.serverGuid.symm, fun hs => ?_⟩
    refine ⟨q.server.incoming, ?_, hun hs⟩
    rw [unusedBytes, hs]
    rfl
  cases hok.phase with
  | asking _ h | answering _ h | stuck h => exact absurd (h.symm.trans hend) (by decide)
  | lost h => exact absurd (h.symm.trans hc) (by decide)
  | begun hj hs => exact hjn hj hs (.inl rfl) nofun
  | ended hj hs hlen => exact hjn hj hs (.inr (.inr ⟨rfl, hlen⟩)) nofun
  | through hj hs hu ho =>
    refine hjn hj hs (.inr (.inl rfl)) fun _ => ?_
    have hu : q.server.incoming ++ q.toServer ++ q.client.outgoing = q.written := hu
    rwa [ho, append_nil] at hu

def rootPair : AuthPair := .new (.clientNew rootEnv .empty none)
  (.serverNew (asciiBytes "ab") rootCredentials none [])

/-- The client authenticates with EXTERNAL, and sends BEGIN. -/
def externalTurns : List PairEvent :=
  [.clientSends 100, .serverReads 100, .serverWorks fun _ => rootEnv, .serverSends 100,
    .clientReads 100, .clientWorks fun _ => rootEnv, .clientSends 100]

theorem pairRun_agrees_external :
    ∃ q, pairRun (externalTurns ++ [.clientWrites [1, 2], .serverReads 8, .serverWorks fun _ => rootEnv])
      rootPair = .ok q ∧ q.server.state = .authenticated ∧ Agree q := by
  have hst : (pairRun (externalTurns ++
      [.clientWrites [1, 2], .serverReads 8, .serverWorks fun _ => rootEnv]) rootPair).map
      (fun q => (q.client.state, q.server.state)) = .ok (.authenticated, .authenticated) := by
    decide +kernel
  cases hrn : pairRun (externalTurns ++
      [.clientWrites [1, 2], .serverReads 8, .serverWorks fun _ => rootEnv]) rootPair with
  | error e =>
    rw [hrn] at hst
    cases hst
  | ok q =>
    rw [hrn] at hst
    have hst := Except.ok.inj hst
    refine ⟨q, rfl, (Prod.mk.inj hst).2, ?_⟩
    have hguid : HexGuid (asciiBytes "ab") := ⟨by decide +kernel, by decide +kernel, by decide +kernel⟩
    exact pairRun_agrees hguid rootEnv .empty rootCredentials none none [] _ hrn
      (Prod.mk.inj hst).1

/-- More than the server reads at once: it disconnects. -/
theorem bigChunk_disconnects : HexGuid (asciiBytes "ab") ∧
    (pairRun (externalTurns ++ [.clientWrites (.replicate maxBuffer 0), .serverReads (2 * maxBuffer),
      .serverWorks fun _ => rootEnv]) rootPair).map (fun q => (q.client.state, q.server.state)) =
      .ok (.authenticated, .needDisconnect) :=
  ⟨⟨by decide +kernel, by decide +kernel, by decide +kernel⟩, by decide +kernel⟩

end DBus
