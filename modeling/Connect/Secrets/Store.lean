/-
  Connect.Secrets.Store — the secrets of container mode (services/secrets.py): a dict of
  strings, encrypted in `secrets.enc`, and the plaintext `secrets.json` of older versions,
  which whatever loads the secrets moves over.

  Every operation loads the whole dict, and a `secrets.enc` that does not decrypt is the
  empty dict to it. The file is a map as long as nothing is moved over entries that the
  plaintext lacks, and nothing is stored over what does not decrypt
  (`isMap_iff_safe`, with the exact condition `Safe`).

  The files are there and can be read and written; what they hold is arbitrary.
-/

import Connect.Json.Dumps
import Connect.Sql.Map
import Connect.Data.Credentials

namespace Connect.Secrets

open Json
open Data (Bytes)

/-- Fernet under the key derived from JWT_SECRET_KEY, on text; none is an InvalidToken, or
    bytes that do not decode. -/
structure Fernet where
  encrypt (salt : Nat) (plaintext : String) : Bytes
  decrypt : Bytes → Option String
  roundTrip : ∀ salt plaintext, decrypt (encrypt salt plaintext) = some plaintext

/-- SECRETS_FILE and _LEGACY_SECRETS_FILE; of the second the text, or none where it is no UTF-8. -/
structure Files where
  enc : Option Bytes
  legacy : Option (Option String)
  deriving DecidableEq, Repr

/-- How many containers the JSON parser opens: at least one. -/
structure Room where
  size : Nat
  pos : 0 < size

variable (fernet : Fernet) (room : Room)

/-! ## The code -/

def saveSecrets (salt : Nat) (secrets : Json) (f : Files) : Files :=
  { f with enc := some (fernet.encrypt salt (dumps secrets)) }

/-- The null of a JSON text is None, as where there is nothing to migrate. -/
def pyNone : Json → Option Json
  | .null => none
  | v => some v

def migrateLegacySecrets (salt : Nat) (f : Files) : Option Json × Files :=
  match f.legacy with
  | none => (none, f)
  | some none => (none, f)
  | some (some plaintext) =>
    match loads room.size plaintext with
    | .error _ => (none, f)
    | .ok secrets => (pyNone secrets, { saveSecrets fernet salt secrets f with legacy := none })

def loadSecrets (salt : Nat) (f : Files) : Json × Files :=
  match migrateLegacySecrets fernet room salt f with
  | (some migrated, f) => (migrated, f)
  | (none, f) =>
    match f.enc with
    | none => (.obj [], f)
    | some encrypted =>
      match fernet.decrypt encrypted with
      | none => (.obj [], f)
      | some decrypted =>
        match loads room.size decrypted with
        | .error _ => (.obj [], f)
        | .ok secrets => (secrets, f)

/-- The TypeError of `secrets[key] = value` on what is no dict. -/
def assignError : Json → String
  | .arr _ => "list indices must be integers or slices, not str"
  | v => s!"'{v.typeName}' object does not support item assignment"

/-- The salts are of the save that may come with the load, and of the save after it. -/
def setSecret (key value : String) (salts : Nat × Nat) (f : Files) : Except Exc Unit × Files :=
  if value = "" then (.ok (), f)
  else
    match loadSecrets fernet room salts.1 f with
    | (.obj fields, f) => (.ok (), saveSecrets fernet salts.2 (.obj (setKey fields key (.str value))) f)
    | (secrets, f) => (.error (.exception (assignError secrets)), f)

/-- `envValue` is what the environment has for `LL_` and the key in upper case. -/
def getSecret (envValue : Option String) (key : String) (salt : Nat) (f : Files) : Option Json × Files :=
  match truthy envValue with
  | some v => (some (.str v), f)
  | none =>
    match loadSecrets fernet room salt f with
    | (.obj fields, f) => ((fields.lookup key).bind pyNone, f)
    | (_, f) => (none, f)  -- an AttributeError, caught

def deleteSecret (key : String) (salts : Nat × Nat) (f : Files) : Bool × Files :=
  match loadSecrets fernet room salts.1 f with
  | (.obj fields, f) =>
    if fields.any (·.1 == key) then (true, saveSecrets fernet salts.2 (.obj (fields.filter (·.1 != key))) f)
    else (false, f)
  | (_, f) => (false, f)  -- no key, or a TypeError, caught

/-! ## The operations in a sequence -/

inductive Op where
  | set (key value : String) (nonempty : value ≠ "") (salts : Nat × Nat)
  | get (key : String) (salt : Nat)
  | delete (key : String) (salts : Nat × Nat)

inductive Answer where
  | set (r : Except Exc Unit)
  | got (v : Option Json)
  | deleted (b : Bool)

/-- With nothing in the environment. -/
def step (f : Files) : Op → Answer × Files
  | .set key value _ salts =>
    ((.set (setSecret fernet room key value salts f).1), (setSecret fernet room key value salts f).2)
  | .get key salt => (.got (getSecret fernet room none key salt f).1, (getSecret fernet room none key salt f).2)
  | .delete key salts => (.deleted (deleteSecret fernet room key salts f).1, (deleteSecret fernet room key salts f).2)

/-! ## The statement -/

/-- What a file holds. `other` is JSON that is no dict of strings. -/
inductive Contents where
  | absent
  | valid (secrets : List (String × String))
  | bad
  | other
  deriving DecidableEq, Repr

def Contents.lookup (k : String) : Contents → Option String
  | .valid secrets => secrets.lookup k
  | .absent | .bad | .other => none

def strings : List (String × Json) → Option (List (String × String))
  | [] => some []
  | (k, .str s) :: fs => (strings fs).map ((k, s) :: ·)
  | _ :: _ => none

def ofJson : Json → Contents
  | .obj fields => ((strings fields).map Contents.valid).getD .other
  | _ => .other

/-- Of a file's text, or none where it has none. -/
def contents : Option (Option String) → Contents
  | none => .absent
  | some none => .bad
  | some (some text) =>
    match loads room.size text with
    | .error _ => .bad
    | .ok v => ofJson v

def Files.encContents (f : Files) : Contents := contents room (f.enc.map fernet.decrypt)

def Files.legacyContents (f : Files) : Contents := contents room f.legacy

/-- The stored values: of `secrets.enc`, and of `secrets.json` where that has none. -/
def stored (f : Files) (k : String) : Option String :=
  ((f.encContents fernet room).lookup k).or ((f.legacyContents room).lookup k)

/-- What an operation makes of a map. -/
def Op.on (m : String → Option String) : Op → String → Option String
  | .set key value _ _ => Sql.setAt m key (some value)
  | .get _ _ => m
  | .delete key _ => Sql.setAt m key none

/-- A `get` answers what the map has. -/
def AnswersFrom (m : String → Option String) : Op → Answer → Prop
  | .get key _, .got v => v = (m key).map Json.str
  | .set _ _ _ _, .set r => r = .ok ()
  | .delete _ _, .deleted _ => True
  | _, _ => False

/-- The operations are those of the map `m`, the files hold it after each of them, and what
    does not decrypt stays as it is. -/
def IsMap (f : Files) (m : String → Option String) : List Op → Prop
  | [] => True
  | o :: ops =>
    AnswersFrom m o (step fernet room f o).1 ∧
    stored fernet room (step fernet room f o).2 = o.on m ∧
    (f.encContents fernet room = .bad → (step fernet room f o).2.enc = f.enc) ∧
    IsMap (step fernet room f o).2 (o.on m) ops

def Op.rewrites (k : String) : Op → Prop
  | .set key _ _ _ | .delete key _ => key = k
  | .get _ _ => False

def Op.isSet : Op → Prop
  | .set _ _ _ _ => True
  | .get _ _ | .delete _ _ => False

/-- Nothing is migrated or stored over a `secrets.enc` that does not decrypt, and where
    `secrets.json` is migrated, it has every entry of `secrets.enc` but one that the first
    operation itself replaces. -/
def Safe (f : Files) (ops : List Op) : Prop :=
  match f.encContents fernet room, f.legacyContents room with
  | .bad, .valid _ => ops = []
  | .bad, _ => ∀ o ∈ ops, ¬ o.isSet
  | .valid secrets, .valid legacy =>
    ∀ o ∈ ops.head?, ∀ k v, secrets.lookup k = some v → o.rewrites k ∨ legacy.lookup k = some v
  | _, _ => True

/-! ## What a file holds -/

theorem strings_textFields (ss : List (String × String)) : strings (textFields ss) = some ss := by
  induction ss with
  | nil => rfl
  | cons f ss ih =>
    show (strings (textFields ss)).map (f :: ·) = _
    rw [ih]
    rfl

theorem eq_of_strings {fields : List (String × Json)} {ss : List (String × String)} (h : strings fields = some ss) :
    fields = textFields ss := by
  induction fields generalizing ss with
  | nil => cases h; rfl
  | cons f fs ih =>
    obtain ⟨k, v⟩ := f
    cases v with
    | str s =>
      obtain ⟨ss', hs, rfl⟩ := Option.map_eq_some_iff.mp h
      rw [ih hs]
      rfl
    | _ => cases h

theorem ofJson_textFields (ss : List (String × String)) : ofJson (.obj (textFields ss)) = .valid ss := by
  simp [ofJson, strings_textFields]

theorem ofJson_valid {v : Json} {ss : List (String × String)} (h : ofJson v = .valid ss) :
    v = .obj (textFields ss) := by
  cases v with
  | obj fields =>
    cases hs : strings fields with
    | none => simp [ofJson, hs] at h
    | some ss' =>
      obtain rfl : ss' = ss := by simpa [ofJson, hs] using h
      rw [eq_of_strings hs]
  | _ => cases h

theorem ofJson_ne_bad (v : Json) : ofJson v ≠ .bad ∧ ofJson v ≠ .absent := by
  cases v with
  | obj fields => cases hs : strings fields <;> simp [ofJson, hs]
  | _ => simp [ofJson]

/-- What `json.loads` makes of the text, of a file that holds a dict of strings. -/
theorem contents_valid {t : Option (Option String)} {ss : List (String × String)} (h : contents room t = .valid ss) :
    ∃ text, t = some (some text) ∧ loads room.size text = .ok (.obj (textFields ss)) ∧ (ss.map (·.1)).Nodup := by
  rcases t with _ | _ | text
  · cases h
  · cases h
  · cases hl : loads room.size text with
    | error e => simp [contents, hl] at h
    | ok v =>
      have hv : v = .obj (textFields ss) := ofJson_valid (by simpa [contents, hl] using h)
      have hd := distinct_loads hl
      rw [hv] at hd
      refine ⟨text, rfl, by rw [hl, hv], ?_⟩
      have hkeys : (textFields ss).map (·.1) = ss.map (·.1) := by simp [textFields]
      exact hkeys ▸ hd

theorem contents_bad {t : Option (Option String)} (h : contents room t = .bad) :
    t = some none ∨ ∃ text e, t = some (some text) ∧ loads room.size text = .error e := by
  rcases t with _ | _ | text
  · cases h
  · exact Or.inl rfl
  · cases hl : loads room.size text with
    | error e => exact Or.inr ⟨text, e, rfl, hl⟩
    | ok v => exact absurd (by simpa [contents, hl] using h) (ofJson_ne_bad v).1

theorem contents_absent {t : Option (Option String)} (h : contents room t = .absent) : t = none := by
  rcases t with _ | _ | text
  · rfl
  · cases h
  · cases hl : loads room.size text with
    | error e => simp [contents, hl] at h
    | ok v => exact absurd (by simpa [contents, hl] using h) (ofJson_ne_bad v).2

variable {fernet} {room}

/-- What is saved is what the file holds. -/
theorem encContents_save {ss : List (String × String)} (h : (ss.map (·.1)).Nodup) (salt : Nat) (f : Files) :
    (saveSecrets fernet salt (.obj (textFields ss)) f).encContents fernet room = .valid ss := by
  show contents room (some (fernet.decrypt (fernet.encrypt salt _))) = _
  rw [fernet.roundTrip, contents, loads_dumps (readable_textFields room.pos h)]
  exact ofJson_textFields ss

/-! ## What is loaded -/

def Contents.entries : Contents → List (String × String)
  | .valid secrets => secrets
  | .absent | .bad | .other => []

theorem lookup_eq (c : Contents) (k : String) : c.lookup k = c.entries.lookup k := by
  cases c <;> rfl

/-- There is nothing to migrate, and no JSON in `secrets.enc` that is no dict of strings. -/
structure Quiet (fernet : Fernet) (room : Room) (f : Files) : Prop where
  legacy : f.legacyContents room = .absent ∨ f.legacyContents room = .bad
  enc : f.encContents fernet room ≠ .other

theorem nothing_to_migrate {f : Files} (h : f.legacyContents room = .absent ∨ f.legacyContents room = .bad)
    (salt : Nat) :
    migrateLegacySecrets fernet room salt f = (none, f) := by
  rcases h with h | h
  · have hl : f.legacy = none := contents_absent room h
    simp [migrateLegacySecrets, hl]
  · rcases contents_bad room h with hl | ⟨text, e, hl, he⟩
    · simp [migrateLegacySecrets, hl]
    · simp [migrateLegacySecrets, hl, he]

theorem load_quiet {f : Files} (h : Quiet fernet room f) (salt : Nat) :
    loadSecrets fernet room salt f = (.obj (textFields (f.encContents fernet room).entries), f) := by
  unfold loadSecrets
  rw [nothing_to_migrate h.legacy]
  dsimp only
  cases hc : f.encContents fernet room with
  | other => exact absurd hc h.enc
  | absent =>
    have he : f.enc = none := by simpa using contents_absent room hc
    simp [he, Contents.entries, textFields]
  | valid ss =>
    obtain ⟨text, ht, hl, -⟩ := contents_valid room hc
    obtain ⟨b, hb, hd⟩ := Option.map_eq_some_iff.mp ht
    simp [hb, hd, hl, Contents.entries]
  | bad =>
    rcases contents_bad room hc with ht | ⟨text, e, ht, he⟩
    · obtain ⟨b, hb, hd⟩ := Option.map_eq_some_iff.mp ht
      simp [hb, hd, Contents.entries, textFields]
    · obtain ⟨b, hb, hd⟩ := Option.map_eq_some_iff.mp ht
      simp [hb, hd, he, Contents.entries, textFields]

theorem stored_quiet {f : Files} (h : Quiet fernet room f) (k : String) :
    stored fernet room f k = (f.encContents fernet room).entries.lookup k := by
  have hl : (f.legacyContents room).lookup k = none := by
    rcases h.legacy with h | h <;> rw [h] <;> rfl
  rw [stored, hl, Option.or_none, lookup_eq]

/-! ## The dict -/

theorem keys_textFields (ss : List (String × String)) : (textFields ss).map (·.1) = ss.map (·.1) := by
  simp [textFields]

def toMap (ss : List (String × String)) (k : String) : Option String := ss.lookup k

theorem toMap_cons (f : String × String) (ss : List (String × String)) (k : String) :
    toMap (f :: ss) k = if k = f.1 then some f.2 else toMap ss k := by
  rw [toMap, List.lookup_cons]
  by_cases h : k = f.1
  · simp [h]
  · rw [if_neg h, beq_false_of_ne h]
    rfl

theorem toMap_replace (ss : List (String × String)) (k v k' : String) :
    toMap (ss.map fun f => if f.1 == k then (k, v) else f) k' =
      if k' = k then (toMap ss k).map fun _ => v else toMap ss k' := by
  induction ss with
  | nil => simp [toMap]
  | cons f ss ih =>
    rw [List.map_cons, toMap_cons, ih, toMap_cons f ss k, toMap_cons f ss k']
    by_cases hf : f.1 = k
    · by_cases hk : k' = k <;> simp [hf, hk]
    · have hf' : ¬ k = f.1 := fun h => hf h.symm
      by_cases hk : k' = k
      · simp [hf, hf', hk]
      · simp [hf, hk]

theorem toMap_append (ss : List (String × String)) (k v k' : String) :
    toMap (ss ++ [(k, v)]) k' = (toMap ss k').or (if k' = k then some v else none) := by
  rw [toMap, List.lookup_append, List.lookup_singleton]
  by_cases h : k' = k <;> simp [h, toMap]

theorem toMap_none {ss : List (String × String)} {k : String} (h : ss.any (·.1 == k) = false) :
    toMap ss k = none := by
  rw [toMap, List.lookup_eq_none_iff]
  intro f hf
  have hne := List.any_eq_false.mp h f hf
  simpa using fun he : k = f.1 => hne (by simp [he])

theorem toMap_some {ss : List (String × String)} {k : String} (h : ss.any (·.1 == k) = true) :
    (toMap ss k).isSome = true := by
  rw [toMap, List.lookup_isSome_iff]
  obtain ⟨f, hf, hk⟩ := List.any_eq_true.mp h
  have he : f.1 = k := by simpa using hk
  exact ⟨f, hf, by simp [he]⟩

/-- `secrets[key] = value`. -/
theorem setKey_textFields {ss : List (String × String)} (h : (ss.map (·.1)).Nodup) (k v : String) :
    ∃ ss', setKey (textFields ss) k (.str v) = textFields ss' ∧ (ss'.map (·.1)).Nodup ∧
      toMap ss' = Sql.setAt (toMap ss) k (some v) := by
  have hnodup := @nodup_setKey (textFields ss) (by rwa [keys_textFields]) k (.str v)
  have hany : (textFields ss).any (·.1 == k) = ss.any (·.1 == k) := by
    simp [textFields, List.any_map, Function.comp_def]
  cases hk : ss.any (·.1 == k) with
  | true =>
    have heq : setKey (textFields ss) k (.str v) = textFields (ss.map fun f => if f.1 == k then (k, v) else f) := by
      rw [setKey, hany, hk, if_pos rfl, textFields, textFields, List.map_map, List.map_map]
      refine List.map_congr_left fun f _ => ?_
      simp only [Function.comp_apply]
      split <;> rfl
    refine ⟨_, heq, by rwa [heq, keys_textFields] at hnodup, funext fun k' => ?_⟩
    obtain ⟨old, hold⟩ := Option.isSome_iff_exists.mp (toMap_some hk)
    rw [toMap_replace, hold]
    rfl
  | false =>
    have heq : setKey (textFields ss) k (.str v) = textFields (ss ++ [(k, v)]) := by
      rw [setKey, hany, hk, if_neg (by decide)]
      simp [textFields]
    refine ⟨_, heq, by rwa [heq, keys_textFields] at hnodup, funext fun k' => ?_⟩
    rw [toMap_append]
    by_cases he : k' = k
    · rw [he, toMap_none hk, Sql.setAt_self]
      simp
    · rw [Sql.setAt_ne _ _ he, if_neg he, Option.or_none]

theorem toMap_filter (ss : List (String × String)) (k : String) :
    toMap (ss.filter (·.1 != k)) = Sql.setAt (toMap ss) k none := by
  funext k'
  induction ss with
  | nil => simp [toMap, Sql.setAt]
  | cons f ss ih =>
    by_cases hf : f.1 = k
    · rw [List.filter_cons_of_neg (by simp [hf]), ih]
      by_cases hk : k' = k
      · simp [hk]
      · rw [Sql.setAt_ne _ _ hk, Sql.setAt_ne _ _ hk, toMap_cons, if_neg (by rwa [hf])]
    · rw [List.filter_cons_of_pos (by simpa using hf), toMap_cons, ih]
      by_cases hk : k' = k
      · rw [hk, Sql.setAt_self, Sql.setAt_self, if_neg (Ne.symm hf)]
      · rw [Sql.setAt_ne _ _ hk, Sql.setAt_ne _ _ hk, toMap_cons]

/-! ## An operation with nothing to migrate -/

theorem toMap_entries {f : Files} (h : Quiet fernet room f) :
    toMap (f.encContents fernet room).entries = stored fernet room f :=
  funext fun k => (stored_quiet h k).symm

theorem nodup_entries (f : Files) : ((f.encContents fernet room).entries.map (·.1)).Nodup := by
  cases hc : f.encContents fernet room with
  | valid ss =>
    obtain ⟨-, -, -, hn⟩ := contents_valid room hc
    exact hn
  | _ => exact List.nodup_nil

theorem quiet_save {f : Files} (h : Quiet fernet room f) {ss : List (String × String)}
    (hn : (ss.map (·.1)).Nodup) (salt : Nat) :
    Quiet fernet room (saveSecrets fernet salt (.obj (textFields ss)) f) where
  legacy := h.legacy
  enc := by rw [encContents_save hn]; simp

/-- What an operation does: it answers from what is stored, and saves what that becomes
    or leaves the files as they are. -/
structure Does (fernet : Fernet) (room : Room) (f : Files) (o : Op) (r : Answer × Files) : Prop where
  answers : AnswersFrom (stored fernet room f) o r.1
  stores : stored fernet room r.2 = o.on (stored fernet room f)
  quiet : Quiet fernet room r.2
  saved : r.2 = f ∨ ∃ ss, r.2.encContents fernet room = .valid ss
  set : o.isSet → ∃ ss, r.2.encContents fernet room = .valid ss
  empty : f.encContents fernet room = .bad → ¬ o.isSet → r.2 = f

theorem does_set {f : Files} (h : Quiet fernet room f) (k v : String) (hne : v ≠ "") (salts : Nat × Nat) :
    Does fernet room f (.set k v hne salts) (step fernet room f (.set k v hne salts)) := by
  obtain ⟨ss, heq, hn, hmap⟩ := setKey_textFields (@nodup_entries fernet room f) k v
  have hs : step fernet room f (.set k v hne salts) =
      (.set (.ok ()), saveSecrets fernet salts.2 (.obj (textFields ss)) f) := by
    simp [step, setSecret, hne, load_quiet h, heq]
  have hc := @encContents_save fernet room _ hn salts.2 f
  have hq := quiet_save h hn salts.2
  rw [hs]
  refine ⟨rfl, ?_, hq, Or.inr ⟨ss, hc⟩, fun _ => ⟨ss, hc⟩, fun _ hset => absurd trivial hset⟩
  rw [← toMap_entries hq, hc]
  show toMap ss = Sql.setAt (stored fernet room f) k (some v)
  rw [hmap, toMap_entries h]

theorem does_get {f : Files} (h : Quiet fernet room f) (k : String) (salt : Nat) :
    Does fernet room f (.get k salt) (step fernet room f (.get k salt)) := by
  have hs : step fernet room f (.get k salt) = (.got ((stored fernet room f k).map Json.str), f) := by
    have hv : ((textFields (f.encContents fernet room).entries).lookup k).bind pyNone =
        (stored fernet room f k).map Json.str := by
      rw [lookup_textFields, stored_quiet h]
      cases (f.encContents fernet room).entries.lookup k <;> rfl
    simp [step, getSecret, truthy, load_quiet h, hv]
  rw [hs]
  exact ⟨rfl, rfl, h, Or.inl rfl, fun hset => hset.elim, fun _ _ => rfl⟩

theorem does_delete {f : Files} (h : Quiet fernet room f) (k : String) (salts : Nat × Nat) :
    Does fernet room f (.delete k salts) (step fernet room f (.delete k salts)) := by
  have hany : (textFields (f.encContents fernet room).entries).any (·.1 == k) =
      (f.encContents fernet room).entries.any (·.1 == k) := by
    simp [textFields, List.any_map, Function.comp_def]
  cases hk : (f.encContents fernet room).entries.any (·.1 == k) with
  | false =>
    have hs : step fernet room f (.delete k salts) = (.deleted false, f) := by
      simp only [step, deleteSecret, load_quiet h, hany, hk]
      rfl
    rw [hs]
    refine ⟨trivial, funext fun k' => ?_, h, Or.inl rfl, fun hset => hset.elim, fun _ _ => rfl⟩
    show stored fernet room f k' = Sql.setAt (stored fernet room f) k none k'
    by_cases he : k' = k
    · rw [he, Sql.setAt_self, ← toMap_entries h, toMap_none hk]
    · rw [Sql.setAt_ne _ _ he]
  | true =>
    have hfilter : (textFields (f.encContents fernet room).entries).filter (·.1 != k) =
        textFields ((f.encContents fernet room).entries.filter (·.1 != k)) := by
      simp [textFields, List.filter_map, Function.comp_def]
    have hs : step fernet room f (.delete k salts) =
        (.deleted true, saveSecrets fernet salts.2
          (.obj (textFields ((f.encContents fernet room).entries.filter (·.1 != k)))) f) := by
      simp only [step, deleteSecret, load_quiet h, hany, hk, hfilter]
      rfl
    have hn : (((f.encContents fernet room).entries.filter (·.1 != k)).map (·.1)).Nodup :=
      List.Nodup.sublist (List.filter_sublist.map _) (nodup_entries f)
    have hc := @encContents_save fernet room _ hn salts.2 f
    have hq := quiet_save h hn salts.2
    rw [hs]
    refine ⟨trivial, ?_, hq, Or.inr ⟨_, hc⟩, fun hset => hset.elim, fun hbad _ => ?_⟩
    · rw [← toMap_entries hq, hc]
      show toMap ((f.encContents fernet room).entries.filter (·.1 != k)) = Sql.setAt (stored fernet room f) k none
      rw [toMap_filter, toMap_entries h]
    · rw [hbad] at hk
      cases hk

theorem does {f : Files} (h : Quiet fernet room f) (o : Op) : Does fernet room f o (step fernet room f o) := by
  cases o with
  | set k v hne salts => exact does_set h k v hne salts
  | get k salt => exact does_get h k salt
  | delete k salts => exact does_delete h k salts

/-! ## The migration -/

def migrated (fernet : Fernet) (salt : Nat) (ss : List (String × String)) (f : Files) : Files :=
  { saveSecrets fernet salt (.obj (textFields ss)) f with legacy := none }

/-- The salt of the save that comes with the load. -/
def Op.loadSalt : Op → Nat
  | .set _ _ _ salts | .delete _ salts => salts.1
  | .get _ salt => salt

theorem migrated_enc {f : Files} {ss : List (String × String)} (h : f.legacyContents room = .valid ss) (salt : Nat) :
    (migrated fernet salt ss f).encContents fernet room = .valid ss := by
  obtain ⟨-, -, -, hn⟩ := contents_valid room h
  exact encContents_save hn salt f

theorem quiet_migrated {f : Files} {ss : List (String × String)} (h : f.legacyContents room = .valid ss)
    (salt : Nat) :
    Quiet fernet room (migrated fernet salt ss f) where
  legacy := Or.inl rfl
  enc := by rw [migrated_enc h]; simp

theorem load_migrates {f : Files} {ss : List (String × String)} (h : f.legacyContents room = .valid ss) (salt : Nat) :
    loadSecrets fernet room salt f = loadSecrets fernet room salt (migrated fernet salt ss f) := by
  obtain ⟨text, hl, hloads, -⟩ := contents_valid room h
  rw [load_quiet (quiet_migrated h salt), migrated_enc h]
  unfold loadSecrets migrateLegacySecrets
  rw [hl]
  simp only [hloads]
  rfl

/-- The first operation on a `secrets.json` is the same operation on the files it is moved to. -/
theorem step_migrates {f : Files} {ss : List (String × String)} (h : f.legacyContents room = .valid ss) (o : Op) :
    step fernet room f o = step fernet room (migrated fernet o.loadSalt ss f) o := by
  cases o with
  | set k v hne salts => simp only [step, setSecret, if_neg hne, load_migrates h salts.1, Op.loadSalt]
  | get k salt =>
    have henv : truthy none = none := rfl
    simp only [step, getSecret, henv, load_migrates h salt, Op.loadSalt]
  | delete k salts => simp only [step, deleteSecret, load_migrates h salts.1, Op.loadSalt]

/-! ## When the files are a map -/

/-- With nothing to migrate and nothing that does not decrypt, they always are. -/
theorem isMap_quiet {f : Files} (h : Quiet fernet room f) (hb : f.encContents fernet room ≠ .bad) (ops : List Op) :
    IsMap fernet room f (stored fernet room f) ops := by
  induction ops generalizing f with
  | nil => trivial
  | cons o ops ih =>
    have hd := does h o
    have hb' : (step fernet room f o).2.encContents fernet room ≠ .bad := by
      rcases hd.saved with he | ⟨ss, hss⟩
      · rwa [he]
      · rw [hss]
        simp
    refine ⟨hd.answers, hd.stores, fun hbad => absurd hbad hb, ?_⟩
    rw [← hd.stores]
    exact ih hd.quiet hb'

theorem enc_ne {f f' : Files} {ss : List (String × String)} (hb : f.encContents fernet room = .bad)
    (hv : f'.encContents fernet room = .valid ss) : f'.enc ≠ f.enc := by
  intro he
  have heq : f'.encContents fernet room = f.encContents fernet room := by
    rw [Files.encContents, he, Files.encContents]
  rw [heq, hb] at hv
  cases hv

/-- With nothing to migrate, what does not decrypt is kept until the first `set`. -/
theorem isMap_bad {f : Files} (h : Quiet fernet room f) (hb : f.encContents fernet room = .bad) (ops : List Op) :
    IsMap fernet room f (stored fernet room f) ops ↔ ∀ o ∈ ops, ¬ o.isSet := by
  induction ops with
  | nil => simp [IsMap]
  | cons o ops ih =>
    have hd := does h o
    constructor
    · intro h
      obtain ⟨-, -, hkept, hrest⟩ := h
      have hnot : ¬ o.isSet := fun hset => by
        obtain ⟨ss, hss⟩ := hd.set hset
        exact enc_ne hb hss (hkept hb)
      have hsame := hd.empty hb hnot
      have hon : o.on (stored fernet room f) = stored fernet room f := by rw [← hd.stores, hsame]
      rw [hsame, hon] at hrest
      intro o' ho'
      rcases List.mem_cons.mp ho' with rfl | ho'
      · exact hnot
      · exact ih.mp hrest o' ho'
    · intro hall
      have hsame := hd.empty hb (hall o (by simp))
      have hon : o.on (stored fernet room f) = stored fernet room f := by rw [← hd.stores, hsame]
      refine ⟨hd.answers, hd.stores, fun _ => by rw [hsame], ?_⟩
      rw [hsame, hon]
      exact ih.mpr fun o' ho' => hall o' (by simp [ho'])

theorem on_eq_iff (m m' : String → Option String) (o : Op) : o.on m' = o.on m ↔ ∀ k, o.rewrites k ∨ m' k = m k := by
  have hset (key : String) (v : Option String) :
      Sql.setAt m' key v = Sql.setAt m key v ↔ ∀ k, key = k ∨ m' k = m k := by
    constructor
    · intro h k
      by_cases he : key = k
      · exact Or.inl he
      · have hk := congrFun h k
        rw [Sql.setAt_ne _ _ (Ne.symm he), Sql.setAt_ne _ _ (Ne.symm he)] at hk
        exact Or.inr hk
    · intro h
      funext k
      by_cases he : k = key
      · rw [he, Sql.setAt_self, Sql.setAt_self]
      · rw [Sql.setAt_ne _ _ he, Sql.setAt_ne _ _ he]
        exact (h k).resolve_left (Ne.symm he)
  cases o with
  | set k v hne salts => exact hset k (some v)
  | delete k salts => exact hset k none
  | get k salt =>
    show m' = m ↔ ∀ k, False ∨ m' k = m k
    simp [funext_iff]

/-- A migration moves the entries of `secrets.json` over those of `secrets.enc`. -/
theorem isMap_migrates {f : Files} {ss : List (String × String)} (hl : f.legacyContents room = .valid ss)
    (o : Op) (ops : List Op) :
    IsMap fernet room f (stored fernet room f) (o :: ops) ↔
      f.encContents fernet room ≠ .bad ∧
        ∀ k v, (f.encContents fernet room).lookup k = some v → o.rewrites k ∨ ss.lookup k = some v := by
  have hq := @quiet_migrated fernet room f ss hl o.loadSalt
  have hd := does hq o
  rw [← step_migrates hl] at hd
  have hvalid : ∃ ss', (step fernet room f o).2.encContents fernet room = .valid ss' := by
    rcases hd.saved with he | hv
    · exact ⟨ss, by rw [he, migrated_enc hl]⟩
    · exact hv
  have hm (k : String) : stored fernet room (migrated fernet o.loadSalt ss f) k = ss.lookup k := by
    rw [stored_quiet hq, migrated_enc hl]
    rfl
  have hm' (k : String) : stored fernet room f k = ((f.encContents fernet room).lookup k).or (ss.lookup k) := by
    rw [stored, hl]
    rfl
  -- the map after the migration is the one before it, up to what `o` replaces
  have hsame : o.on (stored fernet room (migrated fernet o.loadSalt ss f)) = o.on (stored fernet room f) ↔
      ∀ k v, (f.encContents fernet room).lookup k = some v → o.rewrites k ∨ ss.lookup k = some v := by
    rw [on_eq_iff]
    refine forall_congr' fun k => ?_
    rw [hm, hm']
    cases (f.encContents fernet room).lookup k with
    | none => simp
    | some v => simp
  rw [← hsame]
  constructor
  · intro h
    obtain ⟨-, hstores, hkept, -⟩ := h
    obtain ⟨ss', hss'⟩ := hvalid
    exact ⟨fun hb => enc_ne hb hss' (hkept hb), hd.stores.symm.trans hstores⟩
  · intro h
    obtain ⟨hnb, hon⟩ := h
    refine ⟨?_, hd.stores.trans hon, fun hb => absurd hb hnb, ?_⟩
    · cases o with
      | get k salt => exact (show stored fernet room _ = stored fernet room f from hon) ▸ hd.answers
      | set k v hne salts => exact hd.answers
      | delete k salts => exact hd.answers
    · rw [← hon, ← hd.stores]
      refine isMap_quiet hd.quiet ?_ ops
      obtain ⟨ss', hss'⟩ := hvalid
      rw [hss']
      simp

/-- The files are a map under a sequence of operations if and only if it is safe. -/
theorem isMap_iff_safe (fernet : Fernet) (room : Room) (f : Files) (ops : List Op)
    (he : f.encContents fernet room ≠ .other) (hl : f.legacyContents room ≠ .other) :
    IsMap fernet room f (stored fernet room f) ops ↔ Safe fernet room f ops := by
  unfold Safe
  cases hc : f.legacyContents room with
  | other => exact absurd hc hl
  | valid ss =>
    cases ops with
    | nil => cases f.encContents fernet room <;> simp [IsMap]
    | cons o ops =>
      rw [isMap_migrates hc]
      cases f.encContents fernet room with
      | valid ss' => simp [Contents.lookup]
      | _ => simp [Contents.lookup]
  | absent | bad =>
    have hq : Quiet fernet room f := ⟨by simp [hc], he⟩
    cases hb : f.encContents fernet room with
    | bad => exact isMap_bad hq hb ops
    | _ => exact iff_of_true (isMap_quiet hq (by simp [hb]) ops) trivial

/-! ### Files that are one, and files that are not -/

def inClear : Fernet := ⟨Data.clear.encryptSecret, Data.clear.decryptSecret, Data.clear.secretRoundTrip⟩

def someRoom : Room := ⟨9, by decide⟩

def noFiles : Files := ⟨none, none⟩

theorem isMap_from_nothing :
    IsMap inClear someRoom noFiles (stored inClear someRoom noFiles)
      [.set "aws_access_key" "AKIA" (by decide) (0, 1), .get "aws_access_key" 2, .delete "aws_access_key" (3, 4)] :=
  (isMap_iff_safe inClear someRoom noFiles _ (by decide) (by decide)).mpr trivial

/-- Bytes that no key decrypts. -/
def corrupted : Files := ⟨some [7], none⟩

/-- One secret in `secrets.enc`, and a `secrets.json` without it. -/
def twoFiles : Files :=
  saveSecrets inClear 0 (.obj (textFields [("aws_access_key", "AKIA")])) ⟨none, some (some "\x7b\x7d")⟩

/-- A `set` writes over the first; a `get`, of any key, empties the second. -/
theorem secrets_discarded :
    ¬ IsMap inClear someRoom corrupted (stored inClear someRoom corrupted) [.set "a" "b" (by decide) (0, 1)] ∧
    ¬ IsMap inClear someRoom twoFiles (stored inClear someRoom twoFiles) [.get "a" 1] := by
  constructor
  · intro h
    have hq : Quiet inClear someRoom corrupted := ⟨Or.inl rfl, by decide⟩
    exact (isMap_bad hq (by decide) _).mp h _ (List.mem_singleton.mpr rfl) trivial
  · intro h
    have hc : twoFiles.encContents inClear someRoom = .valid [("aws_access_key", "AKIA")] :=
      encContents_save (by decide) 0 _
    have hk := ((@isMap_migrates _ _ _ [] (by decide) _ _).mp h).2 "aws_access_key" "AKIA" (by rw [hc]; decide)
    exact hk.elim id (by decide)

end Connect.Secrets
