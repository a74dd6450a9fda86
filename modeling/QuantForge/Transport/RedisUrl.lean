import QuantForge.Library.Regex
import QuantForge.Transport.RedisFlush

/-! The constructor of `transport/redis_client.cpp` and what it reads from its URL, against the form
`redis://[:password@]host:port` that it names. -/
namespace QuantForge

open Library

namespace RedisUrl

/-- What follows the word is an optional text up to the first `@`, a host and a port. -/
def address : Regex Char :=
  .seq (.field 2 ':' 1) (.group 3 (.run Char.isDigit 1))

def pattern : Regex Char :=
  .literal "redis://".toList (.seq (.opt (.field 1 '@' 0)) address)

inductive UrlError where
  | outOfRange
  deriving DecidableEq

structure Address where
  host : Str := "127.0.0.1".toList
  port : Nat := 6379
  password : Str := []
  deriving DecidableEq

def read (url : Str) : Except UrlError Address :=
  match pattern.fullMatch url with
  | none => .ok {}
  | some m =>
      let port := Nat.ofDigitChars 10 (Regex.groupText m 3) 0
      if port < 2 ^ 31 then
        .ok { host := Regex.groupText m 2, port := port, password := Regex.groupText m 1 }
      else .error .outOfRange

/-- A URL in its parts: the text before the first `@` if there is one, the host and the digits of
the port. -/
structure Form (url : Str) (user : Option Str) (host digits : Str) : Prop where
  text : url = "redis://".toList ++
    ((user.map fun u => u ++ ['@']).getD [] ++ (host ++ ':' :: digits))
  user : ∀ u ∈ user, '@' ∉ u
  host : host ≠ [] ∧ ':' ∉ host
  digits : digits ≠ [] ∧ ∀ c ∈ digits, c.isDigit = true

variable {url u host digits : Str}

theorem fullMatch_address (hhost : host ≠ [] ∧ ':' ∉ host)
    (hdigits : digits ≠ [] ∧ ∀ c ∈ digits, c.isDigit = true) :
    address.fullMatch (host ++ ':' :: digits) = some [(2, host), (3, digits)] := by
  have hlength : 1 ≤ host.length := List.length_pos_iff.mpr hhost.1
  have hsome : 1 ≤ digits.length ∧ ∀ c ∈ digits, c.isDigit = true :=
    ⟨List.length_pos_iff.mpr hdigits.1, hdigits.2⟩
  rw [address, Regex.fullMatch_field 2 ':' _ digits hhost.2 hlength, Regex.fullMatch_group_run,
    if_pos hsome]
  rfl

theorem fullMatch_address_eq_some {text : Str} {m : List (Nat × Str)}
    (h : address.fullMatch text = some m) :
    ∃ host digits, text = host ++ ':' :: digits ∧ (host ≠ [] ∧ ':' ∉ host) ∧
      (digits ≠ [] ∧ ∀ c ∈ digits, c.isDigit = true) ∧ m = [(2, host), (3, digits)] := by
  obtain ⟨host, digits, rfl, hcolon, hlength, others, hothers, rfl⟩ :=
    Regex.fullMatch_field_eq_some h
  rw [Regex.fullMatch_group_run] at hothers
  split at hothers
  · rename_i hdigits
    obtain rfl := Option.some.inj hothers
    exact ⟨host, digits, rfl, ⟨List.length_pos_iff.mp hlength, hcolon⟩,
      ⟨List.length_pos_iff.mp hdigits.1, hdigits.2⟩, rfl⟩
  · cases hothers

theorem fullMatch_pattern (text : Str) : pattern.fullMatch ("redis://".toList ++ text) =
    (Regex.fullMatch (.seq (.field 1 '@' 0) address) text).or (address.fullMatch text) := by
  rw [pattern, Regex.fullMatch_literal, Regex.fullMatch_opt_seq]

theorem fullMatch_user (h : Form url (some u) host digits) :
    pattern.fullMatch url = some [(1, u), (2, host), (3, digits)] := by
  have htext : url = "redis://".toList ++ (u ++ '@' :: (host ++ ':' :: digits)) := by
    rw [h.text]
    simp
  rw [htext, fullMatch_pattern, Regex.fullMatch_field 1 '@' address _ (h.user u rfl)
    (Nat.zero_le _), fullMatch_address h.host h.digits]
  rfl

theorem fullMatch_noUser (h : Form url none host digits)
    (hnone : ∀ u host digits, ¬Form url (some u) host digits) :
    pattern.fullMatch url = some [(2, host), (3, digits)] := by
  have htext : url = "redis://".toList ++ (host ++ ':' :: digits) := h.text
  have huser : Regex.fullMatch (.seq (.field 1 '@' 0) address) (host ++ ':' :: digits) = none := by
    by_contra hsome
    obtain ⟨m, hm⟩ := Option.ne_none_iff_exists'.mp hsome
    obtain ⟨u, rest, hrest, hu, -, others, hothers, -⟩ := Regex.fullMatch_field_eq_some hm
    obtain ⟨host', digits', rfl, hhost, hdigits, -⟩ := fullMatch_address_eq_some hothers
    refine hnone u host' digits' ⟨?_, ?_, hhost, hdigits⟩
    · rw [htext, hrest]
      simp
    · rintro v ⟨⟩
      exact hu
  rw [htext, fullMatch_pattern, huser, fullMatch_address h.host h.digits]
  rfl

theorem exists_form {m : List (Nat × Str)} (h : pattern.fullMatch url = some m) :
    ∃ user host digits, Form url user host digits := by
  have hways : Regex.ways pattern url ≠ [] := by
    intro hnil
    rw [Regex.fullMatch, hnil] at h
    cases h
  obtain ⟨text, rfl⟩ := Regex.prefix_of_literal hways
  rw [fullMatch_pattern] at h
  cases huser : Regex.fullMatch (.seq (.field 1 '@' 0) address) text with
  | some m' =>
      obtain ⟨u, rest, rfl, hu, -, others, hothers, -⟩ := Regex.fullMatch_field_eq_some huser
      obtain ⟨host, digits, rfl, hhost, hdigits, -⟩ := fullMatch_address_eq_some hothers
      refine ⟨some u, host, digits, ?_, ?_, hhost, hdigits⟩
      · simp
      · rintro v ⟨⟩
        exact hu
  | none =>
      rw [huser] at h
      obtain ⟨host, digits, rfl, hhost, hdigits, -⟩ := fullMatch_address_eq_some h
      refine ⟨none, host, digits, rfl, ?_, hhost, hdigits⟩
      intro v hv
      cases hv

theorem read_form {user : Option Str} (h : Form url user host digits)
    (hfirst : user = none → ∀ u host digits, ¬Form url (some u) host digits) :
    read url = if Nat.ofDigitChars 10 digits 0 < 2 ^ 31 then
        .ok { host := host, port := Nat.ofDigitChars 10 digits 0, password := user.getD [] }
      else .error .outOfRange := by
  cases user with
  | none =>
      rw [read, fullMatch_noUser h (hfirst rfl)]
      rfl
  | some u =>
      rw [read, fullMatch_user h]
      rfl

theorem read_of_no_form (h : ∀ user host digits, ¬Form url user host digits) :
    read url = .ok {} := by
  cases hmatch : pattern.fullMatch url with
  | none => rw [read, hmatch]
  | some m =>
      obtain ⟨user, host, digits, hform⟩ := exists_form hmatch
      exact absurd hform (h user host digits)

/-- A URL of the form is read in its parts, with the text before the first `@` where there is a
reading with one; any other URL is read as the default address. The port may be no `int`. -/
theorem redis_url_parts (url : Str) :
    (∀ user host digits, Form url user host digits →
      (user = none → ∀ u host digits, ¬Form url (some u) host digits) →
      read url = if Nat.ofDigitChars 10 digits 0 < 2 ^ 31 then
          .ok { host := host, port := Nat.ofDigitChars 10 digits 0, password := user.getD [] }
        else .error .outOfRange) ∧
      ((∀ user host digits, ¬Form url user host digits) → read url = .ok {}) :=
  ⟨fun _ _ _ h hfirst => read_form h hfirst, read_of_no_form⟩

end RedisUrl

namespace RedisClient

variable {World : Type} {hiredis : Hiredis World} {c c' : RedisClient World} {password : Str}

def construct (hiredis : Hiredis World) (url : Str) (world : World) :
    Except RedisUrl.UrlError (RedisClient World) := do
  let address ← RedisUrl.read url
  return create hiredis address.host address.port address.password world

structure Authenticated (password : Str) (c : RedisClient World) : Prop where
  kept : c.password = password
  commands : ∀ a cmd, .commanded a cmd ∈ c.calls → cmd = .auth password
  context : ∀ a, c.ctx = some a → .commanded a (.auth password) ∈ c.calls

theorem Authenticated.after (h : c.Authenticated password) {world : World}
    {calls : List RedisCall} (hcalls : ∀ a cmd, .commanded a cmd ∉ calls) :
    (c.after world calls).Authenticated password where
  kept := h.kept
  commands a cmd hmem := by
    obtain hold | hnew := List.mem_append.mp hmem
    · exact h.commands a cmd hold
    · exact absurd hnew (hcalls a cmd)
  context a hctx := List.mem_append_left _ (h.context a hctx)

theorem Authenticated.freeContext (h : c.Authenticated password) (a : Nat) :
    (RedisClient.freeContext hiredis c a).Authenticated password := by
  have hafter : (c.after (hiredis.free a c.world) [.freed a]).Authenticated password :=
    h.after (by simp)
  exact ⟨hafter.kept, hafter.commands, nofun⟩

theorem Authenticated.connect (hne : password ≠ []) (hpassword : c.password = password)
    (hcommands : ∀ a cmd, .commanded a cmd ∈ c.calls → cmd = .auth password) :
    (RedisClient.connect hiredis c).Authenticated password := by
  unfold RedisClient.connect
  split
  · refine ⟨hpassword, fun a cmd hmem => ?_, nofun⟩
    obtain hold | hnew := List.mem_append.mp hmem
    · exact hcommands a cmd hold
    · simp at hnew
  · rename_i a world _
    dsimp only
    split
    · refine ⟨hpassword, fun b cmd hmem => ?_, nofun⟩
      simp only [RedisClient.freeContext, RedisClient.after, List.mem_append, List.mem_singleton,
        reduceCtorEq, or_false] at hmem
      exact hcommands b cmd hmem
    · split
      · rename_i hempty
        exact absurd (hpassword.symm.trans hempty) hne
      refine ⟨hpassword, fun b cmd hmem => ?_, fun b hb => ?_⟩
      · simp only [RedisClient.after, List.mem_append, List.mem_singleton, reduceCtorEq,
          or_false, RedisCall.commanded.injEq] at hmem
        obtain hold | ⟨-, rfl⟩ := hmem
        · exact hcommands b cmd hold
        · exact congrArg RedisCommand.auth hpassword
      · obtain rfl := Option.some.inj hb
        refine List.mem_append_right _ (List.mem_singleton.mpr ?_)
        exact congrArg (fun p => RedisCall.commanded a (.auth p)) hpassword.symm

theorem Authenticated.appendCommands (h : c.Authenticated password) {cmds : List RedisCommand}
    (hok : RedisClient.appendCommands hiredis cmds c = .ok c') : c'.Authenticated password := by
  induction cmds generalizing c with
  | nil =>
      obtain rfl := Except.ok.inj hok
      exact h
  | cons cmd cmds ih =>
      rw [RedisClient.appendCommands, List.foldlM_cons] at hok
      obtain ⟨next, hnext, hrest⟩ := RedisHalt.bind_ok hok
      obtain ⟨a, -, heq⟩ := RedisHalt.bind_ok hnext
      obtain rfl := Except.ok.inj heq
      exact ih (h.after (by simp)) hrest

theorem Authenticated.publish (h : c.Authenticated password) {cmds : List RedisCommand}
    (hok : RedisClient.publish hiredis cmds c = .ok c') : c'.Authenticated password := by
  unfold RedisClient.publish at hok
  split at hok
  · obtain rfl := Except.ok.inj hok
    exact h
  · exact h.appendCommands hok

theorem Authenticated.drain (h : c.Authenticated password) {fuel : Nat}
    (hok : RedisClient.drain hiredis fuel c = .ok c') : c'.Authenticated password := by
  induction fuel generalizing c with
  | zero => cases hok
  | succ fuel ih =>
      rw [RedisClient.drain] at hok
      obtain ⟨reply, hread, hrest⟩ := RedisHalt.bind_ok hok
      obtain ⟨a, -, heq⟩ := RedisHalt.bind_ok hread
      obtain rfl := Except.ok.inj heq
      dsimp only at hrest
      have hnext : (c.after (hiredis.getReply a c.world).2
          [.replied a (hiredis.getReply a c.world).1]).Authenticated password := h.after (by simp)
      split at hrest
      · exact ih hnext hrest
      · obtain rfl := Except.ok.inj hrest
        exact hnext

theorem Authenticated.flush (hne : password ≠ []) (h : c.Authenticated password) {fuel : Nat}
    (hok : RedisClient.flush hiredis fuel c = .ok c') : c'.Authenticated password := by
  unfold RedisClient.flush at hok
  split at hok
  · obtain rfl := Except.ok.inj hok
    exact h
  · obtain ⟨drained, hdrain, hrest⟩ := RedisHalt.bind_ok hok
    obtain ⟨a, -, hrest⟩ := RedisHalt.bind_ok hrest
    have hdrained := h.drain hdrain
    split at hrest
    · obtain rfl := Except.ok.inj hrest
      have hfreed : (RedisClient.freeContext hiredis drained a).Authenticated password :=
        hdrained.freeContext a
      exact .connect hne hfreed.kept hfreed.commands
    · obtain rfl := Except.ok.inj hrest
      exact hdrained

theorem Authenticated.step (hne : password ≠ []) (h : c.Authenticated password) {step : Step}
    (hok : step.apply hiredis c = .ok c') : c'.Authenticated password := by
  cases step with
  | call op =>
      cases op with
      | publishPosition _ _ | publishTick _ _ | publishRiskCounters _ _ _ _ | setKillSwitch _ =>
          exact h.publish hok
      | flush fuel => exact h.flush hne hok
  | reconnect =>
      obtain rfl := Except.ok.inj hok
      unfold RedisClient.reconnect
      cases c.ctx with
      | none => exact .connect hne h.kept h.commands
      | some a =>
          have hfreed : (RedisClient.freeContext hiredis c a).Authenticated password :=
            h.freeContext a
          exact .connect hne hfreed.kept hfreed.commands

theorem Authenticated.run (hne : password ≠ []) (h : c.Authenticated password) {steps : List Step}
    (hok : RedisClient.run hiredis steps c = .ok c') : c'.Authenticated password := by
  induction steps generalizing c with
  | nil =>
      obtain rfl := Except.ok.inj hok
      exact h
  | cons step steps ih =>
      rw [RedisClient.run, List.foldlM_cons] at hok
      obtain ⟨next, hnext, hrest⟩ := RedisHalt.bind_ok hok
      exact ih (h.step hne hnext) hrest

def documentedUrl (password host : Str) (port : Nat) : Str :=
  "redis://:".toList ++ (password ++ '@' :: (host ++ ':' :: Nat.toDigits 10 port))

theorem documentedUrl_eq (password host : Str) (port : Nat) : documentedUrl password host port =
    "redis://".toList ++ (((some (':' :: password)).map fun u => u ++ ['@']).getD [] ++
      (host ++ ':' :: Nat.toDigits 10 port)) := by
  have hcolon : "redis://:".toList = "redis://".toList ++ [':'] := by decide
  have hrest : ∀ tail : Str, [':'] ++ (password ++ '@' :: tail) =
      ((some (':' :: password)).map fun u => u ++ ['@']).getD [] ++ tail := fun tail => by simp
  calc documentedUrl password host port
    _ = ("redis://".toList ++ [':']) ++
        (password ++ '@' :: (host ++ ':' :: Nat.toDigits 10 port)) :=
        congrArg (· ++ (password ++ '@' :: (host ++ ':' :: Nat.toDigits 10 port))) hcolon
    _ = _ := by rw [List.append_assoc, hrest]

theorem form_documentedUrl {password host : Str} (hpassword : '@' ∉ password)
    (hhost : host ≠ [] ∧ ':' ∉ host) (port : Nat) :
    RedisUrl.Form (documentedUrl password host port) (some (':' :: password)) host
      (Nat.toDigits 10 port) where
  text := documentedUrl_eq password host port
  user := by simpa using hpassword
  host := hhost
  digits := ⟨Nat.toDigits_ne_nil, fun c hc =>
    Nat.isDigit_of_mem_toDigits (by decide) (by decide) hc⟩

/-- A client with a URL in the form `redis://:password@host:port` is constructed for the host and
the port, but with the colon as a part of the password: in every run it authenticates each context
with the password behind a colon, and sends no other `AUTH`. -/
theorem auth_keeps_colon (hiredis : Hiredis World) {password host : Str} {port : Nat}
    (hpassword : '@' ∉ password) (hhost : host ≠ [] ∧ ':' ∉ host) (hport : port < 2 ^ 31)
    (world : World) :
    ∃ c, construct hiredis (documentedUrl password host port) world = .ok c ∧
      c = create hiredis host port (':' :: password) world ∧
      ∀ steps c', run hiredis steps c = .ok c' → c'.Authenticated (':' :: password) := by
  have hread := RedisUrl.read_form (form_documentedUrl hpassword hhost port) nofun
  rw [Nat.ofDigitChars_ten_toDigits, if_pos hport] at hread
  refine ⟨create hiredis host port (':' :: password) world, ?_, rfl, fun steps c' hrun => ?_⟩
  · rw [construct, hread]
    rfl
  · have hcreated : (create hiredis host port (':' :: password) world).Authenticated
        (':' :: password) := .connect (List.cons_ne_nil _ _) rfl (by simp)
    exact hcreated.run (List.cons_ne_nil _ _) hrun

theorem auth_keeps_colon_secret :
    ∃ c, construct answering (documentedUrl "secret".toList "cache".toList 6380) (0, false) =
        .ok c ∧
      c = create answering "cache".toList 6380 ":secret".toList (0, false) ∧
      ∀ steps c', run answering steps c = .ok c' → c'.Authenticated ":secret".toList :=
  auth_keeps_colon answering (by decide) (by decide) (by decide) (0, false)

end RedisClient

end QuantForge
