/-
  Connect.Auth.EmailDomain — who may register under ALLOWED_EMAIL_DOMAIN.

  An address that the pattern of `register_user` takes is a name, `@`, a domain, and perhaps
  a newline (`Address`), all in ASCII. It has one `@`, so the suffix `@domain` that the
  service asks for is all that stands behind it (`suffix_domain`): a user is created in the
  allowed domain only (`allowed_domain_only`).
-/

import Mathlib.Data.List.Basic
import Connect.Auth.Revoked
import Connect.Regex

namespace Connect.Auth

open Await Regex

/-! ## The pattern -/

/-- `[a-zA-Z0-9_.+-]`. -/
def inName (c : Char) : Bool := isLabel c || c == '_' || c == '.' || c == '+'

/-- `[a-zA-Z0-9-.]`. -/
def inDomain (c : Char) : Bool := isLabel c || c == '.'

def emailRe : Pattern :=
  seqs [.start, .many true 1 inName, .char (· == '@'), .many true 1 isLabel, .char (· == '.'),
    .many true 1 inDomain, .stop]

/-- An address that is accepted. -/
structure Address where
  name : List Char
  label : List Char
  rest : List Char
  tail : List Char
  named : 1 ≤ name.length ∧ ∀ c ∈ name, inName c = true
  labelled : 1 ≤ label.length ∧ ∀ c ∈ label, isLabel c = true
  ended : 1 ≤ rest.length ∧ ∀ c ∈ rest, inDomain c = true
  last : tail = [] ∨ tail = ['\n']

namespace Address

variable (a : Address)

def body : List Char := a.label ++ '.' :: a.rest

def domain : List Char := a.body ++ a.tail

def chars : List Char := a.name ++ '@' :: a.domain

theorem chars_eq : a.chars = a.name ++ '@' :: (a.label ++ '.' :: (a.rest ++ a.tail)) := by simp [chars, domain, body]

theorem at_notMem_name : '@' ∉ a.name := fun h => absurd (a.named.2 _ h) (by decide)

theorem dot_notMem_label : '.' ∉ a.label := fun h => absurd (a.labelled.2 _ h) (by decide)

theorem mem_body {c : Char} (h : c ∈ a.body) : inDomain c = true := by
  unfold body at h
  rcases List.mem_append.mp h with h | h
  · rw [inDomain, a.labelled.2 c h, Bool.true_or]
  rcases List.mem_cons.mp h with rfl | h
  · rfl
  · exact a.ended.2 c h

theorem mem_domain {c : Char} (h : c ∈ a.domain) : inDomain c = true ∨ c = '\n' := by
  unfold domain at h
  rcases List.mem_append.mp h with h | h
  · exact Or.inl (a.mem_body h)
  · rcases a.last with ht | ht
    · rw [ht] at h
      cases h
    · rw [ht] at h
      exact Or.inr (List.mem_singleton.mp h)

theorem at_notMem_domain : '@' ∉ a.domain := by
  intro h
  rcases a.mem_domain h with h | h
  · exact absurd h (by decide)
  · exact absurd h (by decide)

end Address

theorem match_email {cs : List Char} : Matches emailRe true cs ↔ ∃ a : Address, a.chars = cs := by
  unfold emailRe seqs
  simp only [List.foldr_cons, List.foldr_nil, matches_start_seq, matches_many_seq, matches_char_seq,
    matches_stop_seq, beq_iff_eq]
  constructor
  · intro h
    obtain ⟨name, _, rfl, hname, hn, _, _, rfl, rfl, label, _, rfl, hlabel, hl, _, _, rfl, rfl, rest, tail,
      rfl, hrest, hr, ht, _⟩ := h
    exact ⟨⟨name, label, rest, tail, ⟨hn, hname⟩, ⟨hl, hlabel⟩, ⟨hr, hrest⟩, ht⟩, Address.chars_eq _⟩
  · intro h
    obtain ⟨a, rfl⟩ := h
    exact ⟨a.name, _, a.chars_eq, a.named.2, a.named.1, _, _, rfl, rfl, a.label, _, rfl, a.labelled.2,
      a.labelled.1, _, _, rfl, rfl, a.rest, a.tail, rfl, a.ended.2, a.ended.1, a.last, matches_empty⟩

/-! ## `validEmail` -/

/-- What is before the first `c` and what is behind it. -/
theorem cut_iff {c : Char} {cs front back : List Char} (hb : 1 ≤ back.length) :
    cs.takeWhile (· != c) = front ∧ (cs.drop front.length).drop 1 = back ↔ c ∉ front ∧ cs = front ++ c :: back := by
  induction cs generalizing front with
  | nil =>
    constructor
    · intro h
      obtain ⟨-, rfl⟩ := h
      simp at hb
    · intro h
      simp at h
  | cons d cs ih =>
    by_cases hd : d = c
    · subst hd
      rw [List.takeWhile_cons_of_neg (by simp)]
      cases front with
      | nil => simp
      | cons e front =>
        simp only [List.cons_append, List.cons.injEq, reduceCtorEq, false_and, List.mem_cons, not_or, false_iff]
        rintro ⟨⟨hne, -⟩, rfl, -⟩
        exact hne rfl
    · rw [List.takeWhile_cons_of_pos (by simpa using hd)]
      cases front with
      | nil => simp [hd]
      | cons e front =>
        simp only [List.cons.injEq, List.length_cons, List.drop_succ_cons, List.cons_append, List.mem_cons, not_or]
        rw [and_assoc, ih]
        constructor
        · rintro ⟨rfl, hc, rfl⟩
          exact ⟨⟨Ne.symm hd, hc⟩, rfl, rfl⟩
        · rintro ⟨⟨-, hc⟩, rfl, rfl⟩
          exact ⟨rfl, hc, rfl⟩

/-- `$` before a last newline. -/
theorem unterminated {front tail : List Char} (h : '\n' ∉ front) (ht : tail = [] ∨ tail = ['\n']) :
    (if (front ++ tail).getLast? = some '\n' then (front ++ tail).dropLast else front ++ tail) = front := by
  rcases ht with rfl | rfl
  · rw [List.append_nil, if_neg fun hl => h (List.mem_of_getLast? hl)]
  · rw [List.getLast?_concat, if_pos rfl, List.dropLast_concat]

theorem isEmpty_iff {cs : List Char} : (!cs.isEmpty) = true ↔ 1 ≤ cs.length := by
  cases cs with
  | nil => simp
  | cons c cs => simp

theorem validEmail_iff {email : String} : validEmail email = true ↔ ∃ a : Address, a.chars = email.toList := by
  unfold validEmail
  extract_lets cs cs' name domain label rest
  simp only [Bool.and_eq_true, List.all_eq_true, isEmpty_iff]
  constructor
  · intro h
    obtain ⟨⟨⟨⟨⟨hn, hname⟩, hl⟩, hlabel⟩, hr⟩, hrest⟩ := h
    have hdomain : domain = label ++ '.' :: rest := ((cut_iff hr).mp ⟨rfl, rfl⟩).2
    have hchars : cs' = name ++ '@' :: domain :=
      ((cut_iff (by show 1 ≤ domain.length; simp [hdomain]; omega)).mp ⟨rfl, rfl⟩).2
    have htail : ∃ tail, (tail = [] ∨ tail = ['\n']) ∧ cs = cs' ++ tail := by
      by_cases hlast : cs.getLast? = some '\n'
      · refine ⟨['\n'], Or.inr rfl, ?_⟩
        rw [show cs' = cs.dropLast from if_pos hlast, List.dropLast_append_getLast? _ hlast]
      · exact ⟨[], Or.inl rfl, by rw [show cs' = cs from if_neg hlast, List.append_nil]⟩
    obtain ⟨tail, ht, hcs⟩ := htail
    refine ⟨⟨name, label, rest, tail, ⟨hn, hname⟩, ⟨hl, hlabel⟩, ⟨hr, hrest⟩, ht⟩, ?_⟩
    rw [Address.chars_eq, show email.toList = cs from rfl, hcs, hchars, hdomain]
    simp
  · intro h
    obtain ⟨a, ha⟩ := h
    have hcs : cs' = a.name ++ '@' :: a.body := by
      have hsplit : cs = (a.name ++ '@' :: a.body) ++ a.tail := by
        show email.toList = _
        rw [← ha, Address.chars, Address.domain, List.append_assoc, List.cons_append]
      show (if cs.getLast? = some '\n' then cs.dropLast else cs) = _
      rw [hsplit]
      refine unterminated (fun h => ?_) a.last
      rcases List.mem_append.mp h with h | h
      · exact absurd (a.named.2 _ h) (by decide)
      rcases List.mem_cons.mp h with h | h
      · exact absurd h (by decide)
      · exact absurd (a.mem_body h) (by decide)
    have hbody : 1 ≤ a.body.length := by
      unfold Address.body
      simp
      omega
    obtain ⟨hname, hdomain⟩ := (cut_iff hbody).mpr ⟨a.at_notMem_name, hcs⟩
    have hdomain : domain = a.body := by
      show (cs'.drop name.length).drop 1 = _
      rw [show name = a.name from hname, hdomain]
    obtain ⟨hlabel, hrest⟩ := (cut_iff a.ended.1).mpr ⟨a.dot_notMem_label, hdomain⟩
    have hrest : rest = a.rest := by
      show (domain.drop label.length).drop 1 = _
      rw [show label = a.label from hlabel, hrest]
    rw [show name = a.name from hname, show label = a.label from hlabel, hrest]
    exact ⟨⟨⟨⟨⟨a.named.1, a.named.2⟩, a.labelled.1⟩, a.labelled.2⟩, a.ended.1⟩, a.ended.2⟩

/-- The address is checked as the pattern does. -/
theorem validEmail_eq (email : String) : validEmail email = (reMatch emailRe email).isSome := by
  rw [Bool.eq_iff_iff, validEmail_iff, isSome_reMatch, match_email]

/-! ## The domain -/

def isAscii (c : Char) : Bool := c.toNat < 128

/-- `str.lower` on a text in ASCII. -/
def LowersAscii (lower : String → String) : Prop :=
  ∀ s : String, s.toList.all isAscii = true → (lower s).toList = s.toList.map Char.toLower

/-- The address has one `@`, and the domain is all that stands behind it, up to letter case. -/
def InDomain (lower : String → String) (email domain : String) : Prop :=
  ∃ name own : String, email = name ++ "@" ++ own ∧ '@' ∉ name.toList ∧ '@' ∉ own.toList ∧ lower own = lower domain

theorem toLower_eq_at {c : Char} : c.toLower = '@' ↔ c = '@' := by
  unfold Char.toLower
  split
  · rename_i h
    have h1 : 65 ≤ c.val.toNat := h.1
    have h2 : c.val.toNat ≤ 90 := h.2
    constructor
    · intro he
      have hv := congrArg (fun c : Char => c.val.toNat) he
      simp only [UInt32.toNat_add] at hv
      have : (c.val.toNat + 32) % 4294967296 = 64 := hv
      omega
    · rintro rfl
      exact absurd h1 (by decide)
  · rfl

theorem isAscii_of_isLabel {c : Char} (h : isLabel c = true) : isAscii c = true := by
  simp only [isLabel, Bool.or_eq_true, beq_iff_eq] at h
  rcases h with h | rfl
  · exact decide_eq_true (isAlphanum_lt h)
  · decide

theorem Address.ascii (a : Address) : a.chars.all isAscii = true := by
  rw [List.all_eq_true]
  intro c hc
  rcases List.mem_append.mp hc with h | h
  · have hn := a.named.2 c h
    simp only [inName, Bool.or_eq_true, beq_iff_eq] at hn
    rcases hn with ((hn | rfl) | rfl) | rfl
    · exact isAscii_of_isLabel hn
    · rfl
    · rfl
    · rfl
  rcases List.mem_cons.mp h with rfl | h
  · rfl
  rcases a.mem_domain h with hd | rfl
  · simp only [inDomain, Bool.or_eq_true, beq_iff_eq] at hd
    rcases hd with hd | rfl
    · exact isAscii_of_isLabel hd
    · rfl
  · rfl

/-- In lower case there is a `@` where one was. -/
theorem at_notMem_lower {cs : List Char} (h : '@' ∉ cs) : '@' ∉ cs.map Char.toLower := by
  intro hm
  obtain ⟨c, hc, he⟩ := List.mem_map.mp hm
  cases toLower_eq_at.mp he
  exact h hc

variable {cfg : AuthConfig}

/-- The suffix that is asked for is the whole domain. -/
theorem suffix_domain (hlower : LowersAscii cfg.lower) {email domain : String} (hv : validEmail email = true)
    (hd : hasDomain cfg email domain = true) : InDomain cfg.lower email domain := by
  obtain ⟨a, ha⟩ := validEmail_iff.mp hv
  have hascii := a.ascii
  have hemail : (cfg.lower email).toList = a.name.map Char.toLower ++ '@' :: a.domain.map Char.toLower := by
    rw [hlower email (ha ▸ hascii), ← ha, Address.chars, List.map_append, List.map_cons]
    rfl
  have hown : (cfg.lower (String.ofList a.domain)).toList = a.domain.map Char.toLower := by
    rw [hlower, String.toList_ofList]
    rw [String.toList_ofList, List.all_eq_true]
    intro c hc
    exact List.all_eq_true.mp hascii c (List.mem_append_right _ (List.mem_cons_of_mem _ hc))
  obtain ⟨front, hfront⟩ := List.isSuffixOf_iff_suffix.mp hd
  have hfront : front ++ '@' :: (cfg.lower domain).toList = (cfg.lower email).toList := by
    rw [← hfront, String.toList_append]
    rfl
  rw [hemail] at hfront
  -- neither part of the address has a `@`
  have hsame := ((List.append_cons_inj_of_notMem (at_notMem_lower a.at_notMem_name)
    (at_notMem_lower a.at_notMem_domain)).mp hfront.symm).2.2
  refine ⟨String.ofList a.name, String.ofList a.domain, ?_, ?_, ?_, ?_⟩
  · rw [← String.toList_inj, ← ha]
    simp [Address.chars]
  · rw [String.toList_ofList]
    exact a.at_notMem_name
  · rw [String.toList_ofList]
    exact a.at_notMem_domain
  · rw [← String.toList_inj, hown, hsame]

theorem allowed_domain_only {domain : String} (hallowed : cfg.allowedEmailDomain = some domain) (hne : domain ≠ "")
    (hlower : LowersAscii cfg.lower) {email password : String} {displayName : Option String} {isAdmin : Bool}
    {calls : List (Call authSig Exc)} {x : Except Exc (Except String UserDict)}
    (h : Plays (registerUser cfg email password displayName isAdmin) calls x) :
    (∀ call ∈ calls, ∀ e hash name admin, call.op = .createUser e hash name admin →
      e = email ∧ InDomain cfg.lower email domain) ∧
      ∀ user, x = .ok (.ok user) → InDomain cfg.lower email domain := by
  have htruthy : truthy cfg.allowedEmailDomain = some domain := by
    rw [hallowed]
    simp [truthy, hne]
  cases hr : refusal cfg email password with
  | some error =>
    rw [registerUser_eq, hr] at h
    obtain ⟨rfl, rfl, -⟩ := h
    exact ⟨fun _ hm => absurd hm List.not_mem_nil, fun _ hx => by cases hx⟩
  | none =>
    obtain ⟨hv, hd, -⟩ := refusal_none.mp hr
    have hin := suffix_domain hlower hv (hd domain htruthy)
    have huses : (registerUser cfg email password displayName isAdmin).Uses fun o : AuthOp =>
        ∀ e hash name admin, o = .createUser e hash name admin → e = email := by
      refine uses_registerUser (fun o ho e hash name admin he => ?_) fun hash e _ _ _ he => ?_
      · rw [he] at ho
        cases ho
      · cases he
        rfl
    exact ⟨fun call hc e hash name admin ho => ⟨exec_uses huses h call hc e hash name admin ho, hin⟩, fun _ _ => hin⟩

/-! ## One registration -/

def exampleCom : AuthConfig :=
  { someConfig with
    lower := fun s => String.ofList (s.toList.map Char.toLower), allowedEmailDomain := some "Example.com" }

def ann : User := ⟨"Ann@example.COM", "Passw0rd", none, false, 0, none⟩

theorem ann_registers : Plays (registerUser exampleCom ann.email "Passw0rd" none false)
    [⟨AuthOp.getByEmail ann.email, .ok (none : Option (Uuid × User))⟩,
      ⟨AuthOp.hashPassword "Passw0rd", .ok "Passw0rd"⟩,
      ⟨AuthOp.createUser ann.email "Passw0rd" none false, .ok (uuid 1, ann)⟩]
        (.ok (.ok (userToDict (uuid 1) ann))) := by
  have hr : refusal exampleCom ann.email "Passw0rd" = none := by decide
  rw [registerUser_eq, hr]
  exact ⟨(), .ok none, (), _, rfl, rfl, rfl, (), .ok "Passw0rd", (), _, rfl, rfl, rfl, (),
    .ok (uuid 1, ann), (), _, rfl, rfl, rfl, rfl, rfl, rfl⟩

theorem allowed_domain_only_ann : InDomain exampleCom.lower "Ann@example.COM" "Example.com" :=
  (@allowed_domain_only exampleCom _ rfl (by decide) (fun _ _ => String.toList_ofList)
    _ _ _ _ _ _ ann_registers).2 _ rfl

end Connect.Auth
