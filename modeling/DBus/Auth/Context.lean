/-
  The context of the cookies (`_dbus_auth_set_context` of `dbus-auth.c`).

  The context is replaced in place, by `_dbus_string_replace_len`, and the number of bytes
  to replace is the length of the new context, not that of the stored one.  So the stored
  context keeps its length for good: a longer one trips an assertion, and behind a shorter one
  the end of the old context stays (`usesLastContext_iff`).
-/
import DBus.Auth.Defs

namespace DBus

open Outcome List

/-- `_dbus_string_replace_len` -/
def stringReplaceLen (source : List UInt8) (start len : ℕ) (dest : List UInt8)
    (replaceAt replaceLen : ℕ) : Res (List UInt8) := do
  assert (start ≤ source.length)
  assert (len ≤ source.length - start)
  assert (replaceAt ≤ dest.length)
  assert (replaceLen ≤ dest.length - replaceAt)
  let dest ← openGap dest replaceAt ((source.drop start).take len)
  return dest.take (replaceAt + len) ++ dest.drop (replaceAt + len + replaceLen)

/-- `_dbus_auth_set_context` -/
def DBusAuth.setContext (auth : DBusAuth) (context : List UInt8) : Res DBusAuth := do
  let context ← stringReplaceLen context 0 context.length auth.context 0 context.length
  return { auth with context := context }

/-- The calls, one after the other. -/
def DBusAuth.setContexts (auth : DBusAuth) (contexts : List (List UInt8)) : Res DBusAuth :=
  contexts.foldlM setContext auth

/-- The system, with keyrings for one context only. -/
def AuthEnv.onlyContext (env : AuthEnv) (context : List UInt8) : AuthEnv :=
  { env with keyringFor := fun c k => if k = context then env.keyringFor c k else none }

/-- The server opens the keyring of this context only, and sends this context. -/
def DBusAuth.UsesContext (auth : DBusAuth) (context : List UInt8) : Prop :=
  (∀ env data, sha1HandleFirstClientResponse (env.onlyContext context) auth data =
      sha1HandleFirstClientResponse env auth data) ∧
    ∀ challenge, challengeData auth challenge =
      context ++ asciiBytes " " ++ asciiBytes (toString auth.cookieId) ++ asciiBytes " " ++ challenge

section
variable {auth auth' : DBusAuth} {context : List UInt8} {contexts : List (List UInt8)} {n : ℕ}

theorem usesContext_iff : auth.UsesContext context ↔ auth.context = context := by
  constructor
  · rintro ⟨-, h⟩
    simpa [challengeData] using h []
  · rintro rfl
    refine ⟨fun env data => ?_, fun challenge => rfl⟩
    have hrs : ∀ auth' : DBusAuth, auth'.context = auth.context →
        sha1FirstRest (env.onlyContext auth.context) data auth' = sha1FirstRest env data auth' := by
      intro auth' h
      simp only [sha1FirstRest, AuthEnv.keyringNewForCredentials, AuthEnv.onlyContext, h, if_pos]
      rfl
    rw [sha1HandleFirstClientResponse, sha1HandleFirstClientResponse, takeIdentity, takeIdentity,
      hrs { auth with challenge := [] } rfl, hrs { auth with challenge := [], identity := data } rfl]

theorem setContext_eq (hm : auth.context.length + auth.context.length ≤ stringMaxMaxLength) :
    auth.setContext context = if context.length ≤ auth.context.length then
      .ok { auth with context := context ++ auth.context.drop context.length } else .error .assertion := by
  rw [DBusAuth.setContext, stringReplaceLen, Nat.sub_zero, Nat.sub_zero, assert_bind (Nat.zero_le _),
    assert_bind le_rfl, assert_bind (Nat.zero_le _), drop_zero, take_length]
  split
  · next h =>
    have hg : openGap auth.context 0 context = .ok (context ++ auth.context) := by
      rw [openGap]
      split
      · next hnl => rw [length_eq_zero_iff.1 hnl, nil_append]
      · rw [if_neg (by omega), insertAt, take_zero, drop_zero, nil_append]
    rw [assert_bind h, hg]
    simp
  · next h =>
    rw [assert, ensure, if_neg h]
    rfl

/-- The stored context never changes its length. -/
theorem setContexts_cases (contexts : List (List UInt8)) (hn : auth.context.length = n)
    (hm : n + n ≤ stringMaxMaxLength) :
    (∀ c ∈ contexts, c.length ≤ n) ∧ (∃ context, context.length = n ∧
        auth.setContexts contexts = .ok { auth with context := context }) ∨
      ¬ (∀ c ∈ contexts, c.length ≤ n) ∧ auth.setContexts contexts = .error .assertion := by
  subst hn
  induction contexts generalizing auth with
  | nil => exact .inl ⟨by simp, auth.context, rfl, rfl⟩
  | cons c cs ih =>
    rw [DBusAuth.setContexts, foldlM_cons, forall_mem_cons]
    by_cases hc : c.length ≤ auth.context.length
    · have hlen : (c ++ auth.context.drop c.length).length = auth.context.length := by simp; omega
      rw [setContext_eq hm, if_pos hc, and_iff_right hc, ← hlen]
      exact @ih { auth with context := c ++ auth.context.drop c.length } (by rwa [hlen])
    · rw [setContext_eq hm, if_neg hc]
      exact .inr ⟨fun h => hc h.1, rfl⟩

/-- **The context used is the last one set** exactly if no context is longer than the one
    of a new conversation, and the last one is as long. -/
theorem usesLastContext_iff (h : auth.context = asciiBytes "org_freedesktop_general") :
    (∃ auth', auth.setContexts contexts = .ok auth' ∧
        auth'.UsesContext (contexts.getLastD auth.context)) ↔
      (∀ c ∈ contexts, c.length ≤ 23) ∧ (contexts.getLastD auth.context).length = 23 := by
  have hn : auth.context.length = 23 := by rw [h]; rfl
  simp only [usesContext_iff]
  rcases contexts.eq_nil_or_concat' with rfl | ⟨cs, c, rfl⟩
  · exact iff_of_true ⟨auth, rfl, rfl⟩ ⟨by simp, hn⟩
  rw [DBusAuth.setContexts, foldlM_append, getLastD_concat, forall_mem_append, forall_mem_singleton,
    ← DBusAuth.setContexts]
  obtain ⟨hcs, stored, hlen, hst⟩ | ⟨hcs, hst⟩ := setContexts_cases cs hn (by decide)
  · rw [hst, ok_bind, foldlM_cons, and_iff_right hcs]
    rw [setContext_eq (by rw [hlen]; decide)]
    by_cases hc : c.length ≤ 23
    · simp [hc, hlen]
      omega
    · simp [hc, hlen]
  · simp [hst, hcs]

/-- The contexts of the same length set twice. -/
theorem usesLastContext_same : ∃ auth', (DBusAuth.new .server .serverWaitingForAuth).setContexts
    [asciiBytes "org_freedesktop_special", asciiBytes "org_freedesktop_private"] = .ok auth' ∧
      auth'.UsesContext (asciiBytes "org_freedesktop_private") :=
  (usesLastContext_iff rfl).2 (by decide)

/-- Behind a context that is shorter, the end of the default stays. -/
theorem shortContext_mixed : ¬ ∃ auth', (DBusAuth.new .server .serverWaitingForAuth).setContexts
    [asciiBytes "web"] = .ok auth' ∧ auth'.UsesContext (asciiBytes "web") := by
  simp only [usesContext_iff]
  rintro ⟨auth', hst, hu⟩
  rw [DBusAuth.setContexts, foldlM_cons, setContext_eq (by decide)] at hst
  obtain rfl := Except.ok.inj hst
  exact absurd hu (by decide)

end

end DBus
