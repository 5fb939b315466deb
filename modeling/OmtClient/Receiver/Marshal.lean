import OmtClient.Receiver.Dbus

/-!
# Calls read back

A method call that `build_call` marshals, read by `Message::parse` and `Reader` of
`crates/omt-receiver/src/dbus.rs`.

What the writers append depends on the position only through the padding, so that a call is
the concatenation of its parts, each written at its own position (`strAt`, `fieldAt`,
`argAt`). A reader that finds a part at a position returns it and stops behind it.

1. `readStr_at`, `readField_at`, `arg_at`: the readers, on what the writers wrote.
2. `buildCall_bytes`: the bytes of a call.
3. `call_round_trip`: a call that is built is parsed, and its arguments are read back.
-/

namespace OmtClient.Receiver.Dbus

open OmtClient.Lib

/-! ## What is written at a position -/

def strAt (n : Nat) (s : String) : Bytes :=
  padding 4 n ++ (leBytes 4 (utf8 s).length ++ (utf8 s ++ [0]))

def sigAt (s : String) : Bytes := UInt8.ofNat (utf8 s).length :: (utf8 s ++ [0])

/-- A header field as it is written. -/
structure Spec where
  code : Byte
  kind : Byte
  text : String
  deriving DecidableEq, Repr

def fieldAt (n : Nat) (f : Spec) : Bytes :=
  padding 8 n ++ ([f.code, 1, f.kind, 0] ++ if f.kind = tSignature then sigAt f.text else strAt (nextMultiple n 8 + 4) f.text)

def fieldsAt (n : Nat) : List Spec → Bytes
  | [] => []
  | f :: fs => fieldAt n f ++ fieldsAt (n + (fieldAt n f).length) fs

/-- The fields of a call. -/
def callSpecs (destination : Option String) (path : String) (interface : Option String) (member : String)
    (signature : Option String) : List Spec :=
  ⟨fieldPath, tPath, path⟩ :: ((interface.map (⟨fieldInterface, tString, ·⟩)).toList ++
    (⟨fieldMember, tString, member⟩ :: ((destination.map (⟨fieldDestination, tString, ·⟩)).toList ++
      (signature.map (⟨fieldSignature, tSignature, ·⟩)).toList)))

def Arg.letter : Arg → Char
  | .i32 _ => 'i'
  | .u32 _ => 'u'
  | .str _ => 's'
  | .path _ => 'o'

def signatureOf (args : List Arg) : String := String.ofList (args.map Arg.letter)

def argAt (n : Nat) : Arg → Bytes
  | .i32 v => padding 4 n ++ leBytes 4 v.toUInt32.toNat
  | .u32 v => padding 4 n ++ leBytes 4 v.toNat
  | .str s => strAt n s
  | .path s => strAt n s

def argsAt (n : Nat) : List Arg → Bytes
  | [] => []
  | a :: as => argAt n a ++ argsAt (n + (argAt n a).length) as

/-! ## Reading in the order of a signature -/

/-- The read of `Reader` for a letter of a signature. -/
def Reader.arg (r : Reader) (c : Char) : Option (Arg × Reader) :=
  match c with
  | 'i' => some (.i32 r.i32.1, r.i32.2)
  | 'u' => some (.u32 r.u32.1, r.u32.2)
  | 's' => some (.str r.string.1, r.string.2)
  | 'o' => some (.path r.string.1, r.string.2)
  | _ => none

def Reader.args (r : Reader) : List Char → Option (List Arg × Reader)
  | [] => some ([], r)
  | c :: cs => do
    let (a, r) ← r.arg c
    let (as, r) ← r.args cs
    pure (a :: as, r)

/-- The texts of a call. -/
def Arg.texts : Arg → List String
  | .str s => [s]
  | .path s => [s]
  | _ => []

/-- A text without NUL. -/
def Clean (s : String) : Prop := (0 : Byte) ∉ utf8 s

/-- A field that was read is the one that was written. -/
def Matches (raw : Bytes) (s : Spec) (f : Field) : Prop :=
  f.code = s.code ∧ ∃ r, f.value = .text r ∧ r.of raw = utf8 s.text

/-- The text of a field that was read. -/
def Field.text (raw : Bytes) (f : Field) : Option String :=
  match f.value with
  | .text r => ofUtf8 (r.of raw)
  | _ => none

/-- The signature field of a call, which one without arguments does not have. -/
def signatureField (args : List Arg) : Option String := if args.isEmpty then none else some (signatureOf args)

/-- A message that was parsed from the bytes of a call, and the call. -/
structure ReadBack (serial : UInt32) (destination : Option String) (path : String) (interface : Option String)
    (member : String) (args : List Arg) (raw : Bytes) (m : Message) : Prop where
  /-- The loop of `parse` reads every field with its text, the destination among them. -/
  fields : ∃ fs, readFields raw (16 + (load32 raw 12 false).toNat) false (load32 raw 12 false).toNat 16 = some fs ∧
    fs.map (fun f => (f.code, f.text raw)) =
      (callSpecs destination path interface member (signatureField args)).map fun s => (s.code, some s.text)
  isCall : m.kind = methodCall ∧ m.serial = serial ∧ m.replySerial = 0
  hasPath : m.text m.path = some path
  hasInterface : m.text m.interface = interface
  hasMember : m.text m.member = some member
  hasSignature : m.signatureText = signatureOf args
  hasBody : m.raw = raw ∧ args.foldlM wArg ("", []) = some (signatureOf args, m.body.of raw)
  /-- The body, read in the order of the signature, to its end. -/
  hasArgs : m.reader.args (signatureOf args).toList = some (args, { m.reader with pos := m.body.stop })

/-- The texts of a call. -/
def callTexts (destination : Option String) (path : String) (interface : Option String) (member : String)
    (args : List Arg) : List String :=
  path :: member :: (interface.toList ++ (destination.toList ++ args.flatMap Arg.texts))

namespace MarshalLemmas

variable {raw b b' : Bytes} {pos stop n : Nat} {s : String}

/-! ### The writers -/

theorem wAlign_eq (b : Bytes) (k : Nat) : wAlign b k = b ++ padding k b.length := by
  rw [wAlign, padding, nextMultiple, Nat.add_sub_cancel_left]

theorem length_wAlign (b : Bytes) (k : Nat) : (wAlign b k).length = nextMultiple b.length k := by
  rw [wAlign_eq, List.length_append, length_padding]
  exact Nat.add_sub_cancel' (le_nextMultiple _ _)

theorem wStr_eq (h : wStr b s = some b') : b' = b ++ strAt b.length s ∧ (utf8 s).length < 2 ^ 32 := by
  unfold wStr at h
  dsimp only at h
  split at h
  · next hlt =>
    refine ⟨?_, hlt⟩
    rw [← Option.some.inj h, wU32, wAlign_eq, strAt, UInt32.toNat_ofNat_of_lt' hlt]
    simp only [List.append_assoc]
  · cases h

theorem wSig_eq (h : wSig b s = some b') : b' = b ++ sigAt s ∧ (utf8 s).length < 2 ^ 8 := by
  unfold wSig at h
  dsimp only at h
  split at h
  · next hlt =>
    refine ⟨?_, hlt⟩
    rw [← Option.some.inj h, sigAt, List.append_assoc, List.append_assoc]
    rfl
  · cases h

/-- A text that its length field can give. -/
def Fits (f : Spec) : Prop := (utf8 f.text).length < 2 ^ (if f.kind = tSignature then 8 else 32)

theorem wField_eq {code kind : Byte} (h : wField b code kind s = some b') :
    b' = b ++ fieldAt b.length ⟨code, kind, s⟩ ∧ Fits ⟨code, kind, s⟩ := by
  unfold wField at h
  have hhead : (wAlign b 8 ++ [code] ++ [1, kind, 0]).length = nextMultiple b.length 8 + 4 := by
    rw [List.length_append, List.length_append, length_wAlign]
    rfl
  unfold Fits fieldAt
  split at h
  · next hkind =>
    obtain ⟨heq, hlt⟩ := wSig_eq h
    rw [if_pos hkind, if_pos hkind, heq, wAlign_eq]
    refine ⟨?_, hlt⟩
    simp only [List.append_assoc]
    rfl
  · next hkind =>
    obtain ⟨heq, hlt⟩ := wStr_eq h
    rw [if_neg hkind, if_neg hkind, heq, hhead, wAlign_eq]
    refine ⟨?_, hlt⟩
    simp only [List.append_assoc]
    rfl

theorem wArg_eq {sig sig' : String} {a : Arg} (h : wArg (sig, b) a = some (sig', b')) :
    sig' = sig.push a.letter ∧ b' = b ++ argAt b.length a ∧ ∀ t ∈ a.texts, (utf8 t).length < 2 ^ 32 := by
  cases a with
  | i32 v =>
    obtain ⟨rfl, rfl⟩ := Prod.mk.inj (Option.some.inj h)
    refine ⟨rfl, ?_, nofun⟩
    rw [wU32, wAlign_eq, argAt, List.append_assoc]
  | u32 v =>
    obtain ⟨rfl, rfl⟩ := Prod.mk.inj (Option.some.inj h)
    refine ⟨rfl, ?_, nofun⟩
    rw [wU32, wAlign_eq, argAt, List.append_assoc]
  | str t =>
    obtain ⟨body, hbody, heq⟩ := Option.map_eq_some_iff.mp h
    obtain ⟨rfl, rfl⟩ := Prod.mk.inj heq
    obtain ⟨hbytes, hlt⟩ := wStr_eq hbody
    exact ⟨rfl, hbytes, fun t ht => List.mem_singleton.mp ht ▸ hlt⟩
  | path t =>
    obtain ⟨body, hbody, heq⟩ := Option.map_eq_some_iff.mp h
    obtain ⟨rfl, rfl⟩ := Prod.mk.inj heq
    obtain ⟨hbytes, hlt⟩ := wStr_eq hbody
    exact ⟨rfl, hbytes, fun t ht => List.mem_singleton.mp ht ▸ hlt⟩

theorem wArgs_eq {args : List Arg} {sig sig' : String} (h : args.foldlM wArg (sig, b) = some (sig', b')) :
    sig' = sig ++ signatureOf args ∧ b' = b ++ argsAt b.length args ∧
      ∀ a ∈ args, ∀ t ∈ a.texts, (utf8 t).length < 2 ^ 32 := by
  induction args generalizing sig b with
  | nil =>
    obtain ⟨rfl, rfl⟩ := Prod.mk.inj (Option.some.inj h)
    exact ⟨(String.append_empty).symm, (List.append_nil _).symm, nofun⟩
  | cons a args ih =>
    rw [List.foldlM_cons] at h
    obtain ⟨⟨sig₁, b₁⟩, hone, hrest⟩ := Option.bind_eq_some_iff.mp h
    obtain ⟨rfl, rfl, hfirst⟩ := wArg_eq hone
    obtain ⟨rfl, rfl, htexts⟩ := ih hrest
    refine ⟨?_, ?_, ?_⟩
    · rw [signatureOf, signatureOf, List.map_cons]
      apply String.toList_inj.mp
      simp
    · rw [argsAt, List.append_assoc, List.length_append]
    · intro x hx
      rcases List.mem_cons.mp hx with rfl | hx
      · exact hfirst
      · exact htexts x hx

/-! ### The readers -/

theorem slice_eq (raw : Bytes) (i j : Nat) : (raw.take j).drop i = (raw.drop i).take (j - i) := List.drop_take

theorem alignTo_at {k : Nat} (h : Holds raw pos (padding k pos)) (hstop : nextMultiple pos k ≤ stop) :
    alignTo raw pos stop k = (true, nextMultiple pos k) := by
  have hslice : (raw.take (nextMultiple pos k)).drop pos = padding k pos := by
    rw [slice_eq, ← length_padding]
    exact h.take
  have hzero : ((raw.take (nextMultiple pos k)).drop pos).any (· != 0) = false := by
    rw [hslice, List.any_eq_false]
    intro x hx
    rw [List.eq_of_mem_replicate hx]
    decide
  unfold alignTo
  rw [if_neg (Nat.not_lt.mpr hstop), hzero]
  rfl

theorem load32_at {v : UInt32} (h : Holds raw pos (leBytes 4 v.toNat)) : load32 raw pos false = v := by
  have htake := h.take
  rw [length_leBytes] at htake
  unfold load32
  dsimp only
  rw [htake, if_neg Bool.false_ne_true, leNat_leBytes v.toNat_lt, UInt32.ofNat_toNat]

/-- A text behind its length. -/
theorem readStr_text {signature : Bool} {len start : Nat} (hlength : readLength raw pos stop false signature = (some len, start))
    (hlen : len = (utf8 s).length) (h : Holds raw start (utf8 s ++ [0])) (hstop : start + len < stop) (hclean : Clean s) :
    readStr raw pos stop false signature = (some ⟨start, start + len⟩, start + len + 1) ∧
      (⟨start, start + len⟩ : Span).of raw = utf8 s := by
  obtain ⟨htext, hnul⟩ := holds_append.mp h
  have htake : (raw.drop start).take len = utf8 s := hlen ▸ htext.take
  have hzero : raw.getD (start + len) 0 = 0 := by
    rw [List.getD_eq_getElem?_getD, hlen, hnul.head]
    rfl
  have hroom : ¬ stop - start ≤ len := by omega
  refine ⟨?_, ?_⟩
  · unfold readStr
    rw [hlength]
    dsimp only
    rw [hzero, htake, ofUtf8_utf8, decide_eq_false hroom, List.contains_eq_mem, decide_eq_false hclean]
    rfl
  · show (raw.take (start + len)).drop start = _
    rw [slice_eq, Nat.add_sub_cancel_left]
    exact htake

/-- A text that is read where it was written. -/
theorem readStr_at (h : Holds raw pos (strAt pos s)) (hstop : pos + (strAt pos s).length ≤ stop)
    (hfits : (utf8 s).length < 2 ^ 32) (hclean : Clean s) :
    ∃ r, readStr raw pos stop false false = (some r, pos + (strAt pos s).length) ∧ r.of raw = utf8 s := by
  obtain ⟨hpad, hrest⟩ := holds_append.mp h
  obtain ⟨hnumber, htext⟩ := holds_append.mp hrest
  have hle := le_nextMultiple pos 4
  have hlength : (strAt pos s).length = nextMultiple pos 4 - pos + (4 + ((utf8 s).length + 1)) := by
    rw [strAt, List.length_append, length_padding, List.length_append, length_leBytes, List.length_append]
    rfl
  rw [length_padding, Nat.add_sub_cancel' hle] at hnumber htext
  rw [length_leBytes] at htext
  have hword : load32 raw (nextMultiple pos 4) false = UInt32.ofNat (utf8 s).length := by
    refine load32_at ?_
    rw [UInt32.toNat_ofNat_of_lt' hfits]
    exact hnumber
  have hread : readLength raw pos stop false false = (some (utf8 s).length, nextMultiple pos 4 + 4) := by
    unfold readLength
    rw [if_neg Bool.false_ne_true, alignTo_at hpad (by omega)]
    dsimp only
    rw [hword, UInt32.toNat_ofNat_of_lt' hfits, decide_eq_false (by omega)]
    rfl
  obtain ⟨hstr, hof⟩ := readStr_text hread rfl htext (by omega) hclean
  refine ⟨_, hstr.trans ?_, hof⟩
  rw [hlength]
  exact congrArg _ (by omega)

theorem readSig_at (h : Holds raw pos (sigAt s)) (hstop : pos + (sigAt s).length ≤ stop) (hfits : (utf8 s).length < 2 ^ 8)
    (hclean : Clean s) :
    readStr raw pos stop false true = (some ⟨pos + 1, pos + 1 + (utf8 s).length⟩, pos + (sigAt s).length) ∧
      (⟨pos + 1, pos + 1 + (utf8 s).length⟩ : Span).of raw = utf8 s := by
  have hlength : (sigAt s).length = (utf8 s).length + 1 + 1 := by
    rw [sigAt, List.length_cons, List.length_append]
    rfl
  have hread : readLength raw pos stop false true = (some (utf8 s).length, pos + 1) := by
    have hinside : pos < stop := by omega
    unfold readLength
    rw [if_pos rfl, h.head, Option.filter_some, if_pos (decide_eq_true hinside)]
    dsimp only
    rw [UInt8.toNat_ofNat_of_lt' hfits]
  obtain ⟨hstr, hof⟩ := readStr_text hread rfl h.tail (by omega) hclean
  refine ⟨hstr.trans ?_, hof⟩
  rw [hlength]
  exact congrArg _ (by omega)

/-- The fields that a call is written with. -/
inductive Known : Spec → Prop
  | path (s : String) : Known ⟨fieldPath, tPath, s⟩
  | interface (s : String) : Known ⟨fieldInterface, tString, s⟩
  | member (s : String) : Known ⟨fieldMember, tString, s⟩
  | destination (s : String) : Known ⟨fieldDestination, tString, s⟩
  | signature (s : String) : Known ⟨fieldSignature, tSignature, s⟩

theorem tPath_text : utf8 "o" = [tPath] := by decide
theorem tString_text : utf8 "s" = [tString] := by decide
theorem tSignature_text : utf8 "g" = [tSignature] := by decide
theorem tPath_clean : Clean "o" := by unfold Clean; decide
theorem tString_clean : Clean "s" := by unfold Clean; decide
theorem tSignature_clean : Clean "g" := by unfold Clean; decide

/-- The type of a field, as a signature of its own. -/
theorem known_kind {f : Spec} (h : Known f) : ∃ t, utf8 t = [f.kind] ∧ Clean t := by
  cases h with
  | path => exact ⟨"o", tPath_text, tPath_clean⟩
  | interface => exact ⟨"s", tString_text, tString_clean⟩
  | member => exact ⟨"s", tString_text, tString_clean⟩
  | destination => exact ⟨"s", tString_text, tString_clean⟩
  | signature => exact ⟨"g", tSignature_text, tSignature_clean⟩

theorem known_cases {f : Spec} (h : Known f) :
    ((f.code = fieldPath ∨ f.code = fieldInterface ∨ f.code = fieldMember ∨ f.code = fieldErrorName ∨
      f.code = fieldDestination ∨ f.code = fieldSender) ∧ f.kind = (if f.code = fieldPath then tPath else tString) ∧
      f.kind ≠ tSignature) ∨ f.code = fieldSignature ∧ f.kind = tSignature := by
  cases h with
  | path => exact .inl ⟨.inl rfl, rfl, (by decide : tPath ≠ tSignature)⟩
  | interface => exact .inl ⟨.inr (.inl rfl), rfl, (by decide : tString ≠ tSignature)⟩
  | member => exact .inl ⟨.inr (.inr (.inl rfl)), rfl, (by decide : tString ≠ tSignature)⟩
  | destination => exact .inl ⟨.inr (.inr (.inr (.inr (.inl rfl)))), rfl, (by decide : tString ≠ tSignature)⟩
  | signature => exact .inr ⟨rfl, rfl⟩

/-- What follows the type of a field. -/
def valueAt (n : Nat) (f : Spec) : Bytes :=
  if f.kind = tSignature then sigAt f.text else strAt n f.text

theorem readValue_at {f : Spec} (h : Holds raw pos (valueAt pos f)) (hstop : pos + (valueAt pos f).length ≤ stop)
    (hfits : Fits f) (hclean : Clean f.text) :
    ∃ r, readStr raw pos stop false (decide (f.kind = tSignature)) = (some r, pos + (valueAt pos f).length) ∧
      r.of raw = utf8 f.text := by
  unfold valueAt at h hstop ⊢
  unfold Fits at hfits
  split at h
  · next hkind =>
    rw [if_pos hkind] at hfits hstop ⊢
    rw [decide_eq_true hkind]
    exact ⟨_, readSig_at h hstop hfits hclean⟩
  · next hkind =>
    rw [if_neg hkind] at hfits hstop ⊢
    rw [decide_eq_false hkind]
    exact readStr_at h hstop hfits hclean

/-- A field that is read where it was written. -/
theorem readField_at {f : Spec} (h : Holds raw pos (fieldAt pos f)) (hstop : pos + (fieldAt pos f).length ≤ stop)
    (hknown : Known f) (hfits : Fits f) (hclean : Clean f.text) :
    ∃ fld, readField raw pos stop false = some (fld, pos + (fieldAt pos f).length) ∧ Matches raw f fld := by
  obtain ⟨hpad, hrest⟩ := holds_append.mp h
  obtain ⟨hhead, hvalue⟩ := holds_append.mp hrest
  have hle := le_nextMultiple pos 8
  have hlength : (fieldAt pos f).length = nextMultiple pos 8 - pos + (4 + (valueAt (nextMultiple pos 8 + 4) f).length) := by
    rw [fieldAt, List.length_append, length_padding, List.length_append]
    rfl
  rw [length_padding, Nat.add_sub_cancel' hle] at hhead hvalue
  obtain ⟨t, htext, htclean⟩ := known_kind hknown
  have htlen : (utf8 t).length = 1 := by rw [htext]; rfl
  have hsig : Holds raw (nextMultiple pos 8 + 1) (sigAt t) := by
    rw [sigAt, htlen, htext]
    exact hhead.tail
  have hsiglen : (sigAt t).length = 3 := by
    rw [sigAt, List.length_cons, List.length_append, htlen]
    rfl
  have hcode : raw.getD (nextMultiple pos 8) 0 = f.code := by
    rw [List.getD_eq_getElem?_getD, hhead.head]
    rfl
  have hkind : raw.getD (nextMultiple pos 8 + 1 + 1) 0 = f.kind := by
    rw [List.getD_eq_getElem?_getD, hhead.tail.tail.head]
    rfl
  obtain ⟨hread, -⟩ := (@readSig_at _ _ stop) hsig (by omega) (by omega) htclean
  obtain ⟨r, hstr, hof⟩ := (@readValue_at _ (nextMultiple pos 8 + 4) stop) hvalue (by omega) hfits hclean
  have hend : nextMultiple pos 8 + 4 + (valueAt (nextMultiple pos 8 + 4) f).length = pos + (fieldAt pos f).length := by omega
  refine ⟨⟨f.code, .text r⟩, ?_, rfl, r, rfl, hof⟩
  unfold readField
  rw [alignTo_at hpad (by omega)]
  dsimp only
  rw [decide_eq_false (by omega), hread, hcode]
  dsimp only
  rw [if_neg (by decide), htlen, hsiglen, hkind, if_neg (by omega)]
  rw [hend] at hstr
  rcases known_cases hknown with ⟨htextual, hletter, hplain⟩ | ⟨hcode, hletter⟩
  · rw [decide_eq_false hplain] at hstr
    rw [if_pos htextual, if_neg (not_not.mpr hletter), hstr]
  · rw [decide_eq_true hletter] at hstr
    rw [hcode, if_neg (by decide), if_pos rfl, if_neg (not_not.mpr hletter), hstr]

theorem fieldAt_pos (n : Nat) (f : Spec) : 0 < (fieldAt n f).length := by
  rw [fieldAt, List.length_append, List.length_append, List.length_cons]
  omega

/-- The header fields, read where they were written. -/
theorem readFields_at {specs : List Spec} (h : Holds raw pos (fieldsAt pos specs))
    (hstop : pos + (fieldsAt pos specs).length = stop) (hspecs : ∀ f ∈ specs, Known f ∧ Fits f ∧ Clean f.text) {passes : Nat}
    (hpasses : (fieldsAt pos specs).length ≤ passes) :
    ∃ fs, readFields raw stop false passes pos = some fs ∧ List.Forall₂ (Matches raw) specs fs := by
  induction specs generalizing pos passes with
  | nil =>
    have hdone : ¬ pos < stop := Nat.not_lt.mpr (Nat.le_of_eq hstop.symm)
    refine ⟨[], ?_, .nil⟩
    cases passes with
    | zero => rw [readFields, if_neg hdone]
    | succ passes => rw [readFields, if_neg hdone]
  | cons f specs ih =>
    obtain ⟨hfield, hrest⟩ := holds_append.mp h
    have hpos := fieldAt_pos pos f
    rw [fieldsAt, List.length_append] at hstop hpasses
    obtain ⟨hknown, hfits, hclean⟩ := hspecs f List.mem_cons_self
    obtain ⟨fld, hread, hmatch⟩ := (@readField_at _ _ stop) hfield (by omega) hknown hfits hclean
    cases passes with
    | zero => omega
    | succ passes =>
      obtain ⟨fs, hfs, hall⟩ := @ih _ hrest (by omega) (fun g hg => hspecs g (List.mem_cons_of_mem f hg)) passes
        (by omega)
      refine ⟨fld :: fs, ?_, .cons hmatch hall⟩
      rw [readFields, if_pos (by omega), hread]
      dsimp only
      rw [hfs]
      rfl

/-! ### The arguments -/

theorem u32_at {r : Reader} {v : UInt32} (hfailed : r.failed = false) (hbig : r.m.bigEndian = false)
    (h : Holds r.m.raw r.pos (padding 4 r.pos ++ leBytes 4 v.toNat)) (hstop : nextMultiple r.pos 4 + 4 ≤ r.stop) :
    r.u32 = (v, { r with pos := nextMultiple r.pos 4 + 4 }) := by
  obtain ⟨hpad, hnumber⟩ := holds_append.mp h
  rw [length_padding, Nat.add_sub_cancel' (le_nextMultiple _ _)] at hnumber
  have halign : r.align 4 = (true, { r with pos := nextMultiple r.pos 4 }) := by
    unfold Reader.align
    rw [if_neg (by rw [hfailed]; decide), alignTo_at hpad (by omega)]
    dsimp only
    rw [Bool.not_true, ← hfailed]
  unfold Reader.u32
  rw [halign]
  dsimp only
  rw [decide_eq_false (by omega), hbig, load32_at hnumber]
  rfl

theorem string_at {r : Reader} (hfailed : r.failed = false) (hbig : r.m.bigEndian = false)
    (h : Holds r.m.raw r.pos (strAt r.pos s)) (hstop : r.pos + (strAt r.pos s).length ≤ r.stop)
    (hfits : (utf8 s).length < 2 ^ 32) (hclean : Clean s) :
    r.string = (s, { r with pos := r.pos + (strAt r.pos s).length }) := by
  obtain ⟨span, hread, hof⟩ := readStr_at h hstop hfits hclean
  unfold Reader.string
  rw [if_neg (by rw [hfailed]; decide), hbig, hread]
  dsimp only
  rw [hof, ofUtf8_utf8]
  rfl

/-- An argument, read where it was written. -/
theorem arg_at {r : Reader} {a : Arg} (hfailed : r.failed = false) (hbig : r.m.bigEndian = false)
    (h : Holds r.m.raw r.pos (argAt r.pos a)) (hstop : r.pos + (argAt r.pos a).length ≤ r.stop)
    (htexts : ∀ t ∈ a.texts, (utf8 t).length < 2 ^ 32 ∧ Clean t) :
    r.arg a.letter = some (a, { r with pos := r.pos + (argAt r.pos a).length }) := by
  have hle := le_nextMultiple r.pos 4
  have hword : ∀ v, r.pos + (padding 4 r.pos ++ leBytes 4 v).length = nextMultiple r.pos 4 + 4 := by
    intro v
    rw [List.length_append, length_padding, length_leBytes]
    omega
  cases a with
  | i32 v =>
    have hread := u32_at hfailed hbig h (by rw [← hword]; exact hstop)
    show some (Arg.i32 r.u32.1.toInt32, r.u32.2) = _
    rw [hread, argAt, hword]
    rfl
  | u32 v =>
    have hread := u32_at hfailed hbig h (by rw [← hword]; exact hstop)
    show some (Arg.u32 r.u32.1, r.u32.2) = _
    rw [hread, argAt, hword]
  | str t =>
    obtain ⟨hfits, hclean⟩ := htexts t List.mem_cons_self
    have hread := string_at hfailed hbig h hstop hfits hclean
    show some (Arg.str r.string.1, r.string.2) = _
    rw [hread]
    rfl
  | path t =>
    obtain ⟨hfits, hclean⟩ := htexts t List.mem_cons_self
    have hread := string_at hfailed hbig h hstop hfits hclean
    show some (Arg.path r.string.1, r.string.2) = _
    rw [hread]
    rfl

theorem args_at {r : Reader} {args : List Arg} (hfailed : r.failed = false) (hbig : r.m.bigEndian = false)
    (h : Holds r.m.raw r.pos (argsAt r.pos args)) (hstop : r.pos + (argsAt r.pos args).length ≤ r.stop)
    (htexts : ∀ a ∈ args, ∀ t ∈ a.texts, (utf8 t).length < 2 ^ 32 ∧ Clean t) :
    r.args (args.map Arg.letter) = some (args, { r with pos := r.pos + (argsAt r.pos args).length }) := by
  induction args generalizing r with
  | nil => rfl
  | cons a args ih =>
    obtain ⟨hfirst, hrest⟩ := holds_append.mp h
    rw [argsAt, List.length_append] at hstop
    have harg := arg_at hfailed hbig hfirst (by omega) (htexts a List.mem_cons_self)
    have hargs := ih (r := { r with pos := r.pos + (argAt r.pos a).length }) hfailed hbig hrest (by dsimp only; omega)
      fun x hx => htexts x (List.mem_cons_of_mem a hx)
    rw [List.map_cons, Reader.args, harg]
    show ((Reader.args _ _).bind _) = _
    rw [hargs, argsAt, List.length_append, ← Nat.add_assoc]
    rfl

theorem argAt_shift {base : Nat} (n : Nat) (h : base % 4 = 0) (a : Arg) : argAt (base + n) a = argAt n a := by
  cases a with
  | i32 v => exact congrArg (· ++ _) (padding_shift n h)
  | u32 v => exact congrArg (· ++ _) (padding_shift n h)
  | str t => exact congrArg (· ++ _) (padding_shift n h)
  | path t => exact congrArg (· ++ _) (padding_shift n h)

/-- The body of a call stands at a multiple of eight, so that its padding is that of a body
written alone. -/
theorem argsAt_shift {base : Nat} (n : Nat) (h : base % 4 = 0) (args : List Arg) : argsAt (base + n) args = argsAt n args := by
  induction args generalizing n with
  | nil => rfl
  | cons a args ih => rw [argsAt, argsAt, argAt_shift n h, Nat.add_assoc, ih]

/-! ### The bytes of a call -/

/-- The first twelve bytes of a call. -/
def callHeader (serial : UInt32) (flags : Byte) (body : Nat) : Bytes :=
  [108, methodCall, flags, 1] ++ leBytes 4 body ++ leBytes 4 serial.toNat

theorem length_callHeader (serial : UInt32) (flags : Byte) (body : Nat) : (callHeader serial flags body).length = 12 := by
  rw [callHeader, List.length_append, List.length_append, length_leBytes, length_leBytes]
  rfl

def callBytes (serial : UInt32) (flags : Byte) (specs : List Spec) (args : List Arg) : Bytes :=
  callHeader serial flags (argsAt 0 args).length ++ (leBytes 4 (fieldsAt 16 specs).length ++ (fieldsAt 16 specs ++
    (padding 8 (16 + (fieldsAt 16 specs).length) ++ argsAt 0 args)))

/-- The length of the fields, written when they are. -/
theorem patched {header out : Bytes} {specs : List Spec} (hheader : header.length = 12) (body : Bytes)
    (hout : out = wU32 header 0 ++ fieldsAt (wU32 header 0).length specs) :
    overwrite (wAlign out 8 ++ body) 12 (leBytes 4 (out.length - (wU32 header 0).length)) =
      header ++ (leBytes 4 (fieldsAt 16 specs).length ++ (fieldsAt 16 specs ++
        (padding 8 (16 + (fieldsAt 16 specs).length) ++ body))) := by
  have hsixteen : wU32 header 0 = header ++ leBytes 4 0 := by
    rw [wU32, wAlign_eq, hheader]
    exact congrArg (· ++ _) (List.append_nil header)
  have hstart : (header ++ leBytes 4 0).length = 16 := by rw [List.length_append, hheader, length_leBytes]
  rw [hsixteen, hstart] at hout
  have hlength : out.length = 16 + (fieldsAt 16 specs).length := by rw [hout, List.length_append, hstart]
  rw [hsixteen, hstart, hlength, Nat.add_sub_cancel_left, wAlign_eq, hlength, hout, ← hheader]
  simp only [List.append_assoc]
  exact overwrite_middle ((length_leBytes 4 0).trans (length_leBytes 4 _).symm)

theorem fieldsAt_append (n : Nat) (fs gs : List Spec) :
    fieldsAt n (fs ++ gs) = fieldsAt n fs ++ fieldsAt (n + (fieldsAt n fs).length) gs := by
  induction fs generalizing n with
  | nil => rfl
  | cons f fs ih =>
    rw [List.cons_append, fieldsAt, ih, fieldsAt, List.length_append, List.append_assoc, Nat.add_assoc]

/-- Writers that each append some fields, one after the other. -/
def Appends (specs : List Spec) (b b' : Bytes) : Prop := b' = b ++ fieldsAt b.length specs ∧ ∀ f ∈ specs, Fits f

theorem appends_trans {fs gs : List Spec} {b'' : Bytes} (h : Appends fs b b') (h' : Appends gs b' b'') :
    Appends (fs ++ gs) b b'' := by
  obtain ⟨rfl, hfs⟩ := h
  obtain ⟨rfl, hgs⟩ := h'
  refine ⟨?_, fun f hf => (List.mem_append.mp hf).elim (hfs f) (hgs f)⟩
  rw [fieldsAt_append, List.append_assoc, List.length_append]

theorem wField_appends {code kind : Byte} (h : wField b code kind s = some b') : Appends [⟨code, kind, s⟩] b b' := by
  obtain ⟨heq, hfits⟩ := wField_eq h
  refine ⟨?_, fun f hf => List.mem_singleton.mp hf ▸ hfits⟩
  rw [heq, fieldsAt, fieldsAt, List.append_nil]

theorem wOptional_appends {code kind : Byte} {o : Option String} (h : wOptional b code kind o = some b') :
    Appends (o.map (⟨code, kind, ·⟩)).toList b b' := by
  cases o with
  | some t => exact wField_appends h
  | none =>
    obtain rfl := Option.some.inj h
    exact ⟨(List.append_nil _).symm, nofun⟩

theorem wFields_appends {destination interface signature : Option String} {path member : String}
    (h : wFields b destination path interface member signature = some b') :
    Appends (callSpecs destination path interface member signature) b b' := by
  unfold wFields at h
  obtain ⟨b₁, h₁, h⟩ := Option.bind_eq_some_iff.mp h
  obtain ⟨b₂, h₂, h⟩ := Option.bind_eq_some_iff.mp h
  obtain ⟨b₃, h₃, h⟩ := Option.bind_eq_some_iff.mp h
  obtain ⟨b₄, h₄, h⟩ := Option.bind_eq_some_iff.mp h
  exact appends_trans (wField_appends h₁) (appends_trans (wOptional_appends h₂)
    (appends_trans (wField_appends h₃) (appends_trans (wOptional_appends h₄) (wOptional_appends h))))

theorem buildCall_bytes {serial : UInt32} {flags : Byte} {destination interface : Option String} {path member : String}
    {args : List Arg} {specs : List Spec}
    (hspecs : specs = callSpecs destination path interface member (signatureField args))
    (h : buildCall serial flags destination path interface member args = some raw) :
    raw = callBytes serial flags specs args ∧ raw.length ≤ maxMessage ∧ (∀ f ∈ specs, Fits f) ∧
      args.foldlM wArg ("", []) = some (signatureOf args, argsAt 0 args) ∧
      ∀ a ∈ args, ∀ t ∈ a.texts, (utf8 t).length < 2 ^ 32 := by
  unfold buildCall at h
  split at h
  · cases h
  · split at h
    · cases h
    · next signature body hargs =>
      obtain ⟨rfl, rfl, htexts⟩ := wArgs_eq hargs
      rw [String.empty_append, List.nil_append] at h hargs
      split at h
      · cases h
      · dsimp only at h
        split at h
        · cases h
        · next out hfields =>
          have hout : Appends specs _ _ := hspecs ▸ wFields_appends hfields
          obtain ⟨hout, hfits⟩ := hout
          split at h
          · cases h
          · split at h
            · next hmax =>
              obtain rfl := Option.some.inj h
              refine ⟨?_, hmax, hfits, hargs, htexts⟩
              exact patched (length_callHeader serial flags _) _ hout
            · cases h

theorem callSpecs_mem {destination interface signature : Option String} {path member : String} {f : Spec}
    (h : f ∈ callSpecs destination path interface member signature) :
    Known f ∧ (f.text = path ∨ some f.text = interface ∨ f.text = member ∨ some f.text = destination ∨
      some f.text = signature) := by
  unfold callSpecs at h
  rcases List.mem_cons.mp h with rfl | h
  · exact ⟨.path _, .inl rfl⟩
  rcases List.mem_append.mp h with h | h
  · obtain ⟨t, rfl, rfl⟩ := Option.map_eq_some_iff.mp (Option.mem_toList.mp h)
    exact ⟨.interface t, .inr (.inl rfl)⟩
  rcases List.mem_cons.mp h with rfl | h
  · exact ⟨.member _, .inr (.inr (.inl rfl))⟩
  rcases List.mem_append.mp h with h | h
  · obtain ⟨t, rfl, rfl⟩ := Option.map_eq_some_iff.mp (Option.mem_toList.mp h)
    exact ⟨.destination t, .inr (.inr (.inr (.inl rfl)))⟩
  · obtain ⟨t, rfl, rfl⟩ := Option.map_eq_some_iff.mp (Option.mem_toList.mp h)
    exact ⟨.signature t, .inr (.inr (.inr (.inr rfl)))⟩

theorem signatureOf_clean (args : List Arg) : Clean (signatureOf args) := by
  unfold Clean signatureOf
  rw [utf8_ofList]
  intro h
  obtain ⟨c, hc, hzero⟩ := List.mem_flatMap.mp h
  obtain ⟨a, -, rfl⟩ := List.mem_map.mp hc
  cases a with
  | i32 v => exact absurd hzero (by decide : (0 : Byte) ∉ encode 'i')
  | u32 v => exact absurd hzero (by decide : (0 : Byte) ∉ encode 'u')
  | str t => exact absurd hzero (by decide : (0 : Byte) ∉ encode 's')
  | path t => exact absurd hzero (by decide : (0 : Byte) ∉ encode 'o')

/-! ### The message -/

/-- What becomes of a message by a field that holds a text. -/
theorem keep_text {m : Message} {f : Field} {r : Span} (h : f.value = .text r) :
    m.keep f = { m with
      path := if f.code = fieldPath then some r else m.path
      interface := if f.code = fieldInterface then some r else m.interface
      member := if f.code = fieldMember then some r else m.member
      signature := if f.code = fieldSignature then some r else m.signature } := by
  unfold Message.keep
  rw [h]
  dsimp only
  by_cases hpath : f.code = fieldPath
  · rw [hpath]
    rfl
  rw [if_neg hpath, if_neg hpath]
  by_cases hinterface : f.code = fieldInterface
  · rw [hinterface]
    rfl
  rw [if_neg hinterface, if_neg hinterface]
  by_cases hmember : f.code = fieldMember
  · rw [hmember]
    rfl
  rw [if_neg hmember, if_neg hmember]
  by_cases hsignature : f.code = fieldSignature
  · rw [if_pos hsignature, if_pos hsignature]
  · rw [if_neg hsignature, if_neg hsignature]

/-- The text that is kept for a code: that of the last field with it. -/
def lastText (code : Byte) (specs : List Spec) (o : Option String) : Option String :=
  specs.foldl (fun o s => if s.code = code then some s.text else o) o

theorem keep_fold {code : Byte} {place : Message → Option Span}
    (hplace : ∀ m f r, f.value = .text r → place (Message.keep m f) = if f.code = code then some r else place m)
    {specs : List Spec} {fs : List Field} (h : List.Forall₂ (Matches raw) specs fs) {m : Message} {o : Option String}
    (hm : (place m).map (·.of raw) = o.map utf8) :
    (place (fs.foldl Message.keep m)).map (·.of raw) = (lastText code specs o).map utf8 := by
  induction h generalizing m o with
  | nil => exact hm
  | cons hfirst _ ih =>
    obtain ⟨hcode, r, hvalue, hof⟩ := hfirst
    refine ih ?_
    rw [hplace m _ r hvalue, hcode]
    dsimp only
    split
    · exact congrArg some hof
    · exact hm

/-- What a field that holds a text leaves alone. -/
structure Unmoved (m m' : Message) : Prop where
  raw : m'.raw = m.raw
  bigEndian : m'.bigEndian = m.bigEndian
  kind : m'.kind = m.kind
  serial : m'.serial = m.serial
  replySerial : m'.replySerial = m.replySerial
  body : m'.body = m.body

theorem keep_frame {specs : List Spec} {fs : List Field} (h : List.Forall₂ (Matches raw) specs fs) (m : Message) :
    Unmoved m (fs.foldl Message.keep m) := by
  induction h generalizing m with
  | nil => exact ⟨rfl, rfl, rfl, rfl, rfl, rfl⟩
  | cons hfirst _ ih =>
    obtain ⟨-, r, hvalue, -⟩ := hfirst
    rw [List.foldl_cons, keep_text hvalue]
    obtain ⟨hraw, hbig, hkind, hserial, hreply, hbody⟩ := ih _
    exact ⟨hraw, hbig, hkind, hserial, hreply, hbody⟩

/-- The text of a kept field. -/
theorem text_kept {m : Message} {o : Option String} {r : Option Span} (h : r.map (·.of m.raw) = o.map utf8) : m.text r = o := by
  cases r with
  | none =>
    cases o with
    | none => rfl
    | some t => cases h
  | some span =>
    cases o with
    | none => cases h
    | some t =>
      have hof : span.of m.raw = utf8 t := Option.some.inj h
      show ofUtf8 (span.of m.raw) = some t
      rw [hof, ofUtf8_utf8]

theorem text_matches {specs : List Spec} {fs : List Field} (h : List.Forall₂ (Matches raw) specs fs) :
    fs.map (fun f => (f.code, f.text raw)) = specs.map fun s => (s.code, some s.text) := by
  induction h with
  | nil => rfl
  | cons hfirst _ ih =>
    obtain ⟨hcode, r, hvalue, hof⟩ := hfirst
    rw [List.map_cons, List.map_cons, ih, hcode, Field.text, hvalue]
    dsimp only
    rw [hof, ofUtf8_utf8]

/-- What stands where in the bytes of a call. -/
structure Layout (serial : UInt32) (flags : Byte) (specs : List Spec) (args : List Arg) (raw : Bytes) : Prop where
  start : Holds raw 0 [108, methodCall, flags, 1]
  bodyLen : load32 raw 4 false = UInt32.ofNat (argsAt 0 args).length
  serial : load32 raw 8 false = serial
  fieldsLen : load32 raw 12 false = UInt32.ofNat (fieldsAt 16 specs).length
  fields : Holds raw 16 (fieldsAt 16 specs)
  gap : Holds raw (16 + (fieldsAt 16 specs).length) (padding 8 (16 + (fieldsAt 16 specs).length))
  body : Holds raw (nextMultiple (16 + (fieldsAt 16 specs).length) 8) (argsAt 0 args)
  length : raw.length = nextMultiple (16 + (fieldsAt 16 specs).length) 8 + (argsAt 0 args).length
  fieldsSmall : (fieldsAt 16 specs).length < 2 ^ 32
  bodySmall : (argsAt 0 args).length < 2 ^ 32

theorem layout_of_bytes {serial : UInt32} {flags : Byte} {specs : List Spec} {args : List Arg}
    (h : raw = callBytes serial flags specs args) (hmax : raw.length ≤ maxMessage) : Layout serial flags specs args raw := by
  have hle := le_nextMultiple (16 + (fieldsAt 16 specs).length) 8
  have hlength : raw.length = nextMultiple (16 + (fieldsAt 16 specs).length) 8 + (argsAt 0 args).length := by
    rw [h, callBytes, List.length_append, length_callHeader, List.length_append, length_leBytes, List.length_append,
      List.length_append, length_padding]
    omega
  have hsmall : (fieldsAt 16 specs).length < 2 ^ 32 ∧ (argsAt 0 args).length < 2 ^ 32 := by
    unfold maxMessage at hmax
    omega
  have hraw : Holds raw 0 (callBytes serial flags specs args) := by
    rw [← h]
    exact List.prefix_rfl
  obtain ⟨hheader, hraw⟩ := holds_append.mp hraw
  rw [length_callHeader] at hraw
  obtain ⟨hfieldsLen, hraw⟩ := holds_append.mp hraw
  rw [length_leBytes] at hraw
  obtain ⟨hfields, hraw⟩ := holds_append.mp hraw
  obtain ⟨hgap, hbody⟩ := holds_append.mp hraw
  rw [length_padding, Nat.add_sub_cancel' hle] at hbody
  obtain ⟨hheader, hserial⟩ := holds_append.mp hheader
  obtain ⟨hstart, hbodyLen⟩ := holds_append.mp hheader
  refine ⟨hstart, ?_, ?_, ?_, hfields, hgap, hbody, hlength, hsmall.1, hsmall.2⟩
  · refine load32_at ?_
    rw [UInt32.toNat_ofNat_of_lt' hsmall.2]
    exact hbodyLen
  · refine load32_at ?_
    rw [List.length_append, length_leBytes] at hserial
    exact hserial
  · refine load32_at ?_
    rw [UInt32.toNat_ofNat_of_lt' hsmall.1]
    exact hfieldsLen

/-- The message of a call before its fields are kept. -/
def callMessage (serial : UInt32) (specs : List Spec) (raw : Bytes) : Message :=
  ⟨raw, false, methodCall, serial, 0, none, none, none, none,
    ⟨nextMultiple (16 + (fieldsAt 16 specs).length) 8, raw.length⟩⟩

/-- A call is parsed: the fields are read, and the rest is as it was written. -/
theorem parse_layout {serial : UInt32} {flags : Byte} {specs : List Spec} {args : List Arg}
    (h : Layout serial flags specs args raw) (hmax : raw.length ≤ maxMessage) (hserial : serial ≠ 0)
    (hspecs : ∀ f ∈ specs, Known f ∧ Fits f ∧ Clean f.text) :
    ∃ fs, readFields raw (16 + (fieldsAt 16 specs).length) false (fieldsAt 16 specs).length 16 = some fs ∧
      List.Forall₂ (Matches raw) specs fs ∧
      Message.parse raw = some (fs.foldl Message.keep (callMessage serial specs raw)) := by
  obtain ⟨fs, hread, hmatch⟩ := readFields_at h.fields rfl hspecs (Nat.le_refl _)
  refine ⟨fs, hread, hmatch, ?_⟩
  have hle := le_nextMultiple (16 + (fieldsAt 16 specs).length) 8
  have hlength := h.length
  have hfirst : raw.getD 0 0 = 108 := by
    rw [List.getD_eq_getElem?_getD, h.start.head]
    rfl
  have hsecond : raw.getD 1 0 = methodCall := by
    rw [List.getD_eq_getElem?_getD, h.start.tail.head]
    rfl
  have hversion : raw.getD 3 0 = 1 := by
    rw [List.getD_eq_getElem?_getD, h.start.tail.tail.tail.head]
    rfl
  have hfieldsLen : (load32 raw 12 false).toNat = (fieldsAt 16 specs).length := by
    rw [h.fieldsLen, UInt32.toNat_ofNat_of_lt' h.fieldsSmall]
  have htotal : messageLength raw = some raw.length := by
    unfold messageLength
    rw [if_neg (by omega)]
    dsimp only
    rw [hfirst, if_neg (by decide), hversion, if_neg (by decide), show ((108 : Byte) == 66) = false from rfl, hfieldsLen,
      h.bodyLen, UInt32.toNat_ofNat_of_lt' h.bodySmall, ← hlength, if_pos hmax]
  have hzero : ((raw.take (nextMultiple (16 + (fieldsAt 16 specs).length) 8)).drop (16 + (fieldsAt 16 specs).length)).any
      (· != 0) = false := by
    rw [slice_eq, ← length_padding, h.gap.take, List.any_eq_false]
    intro x hx
    rw [List.eq_of_mem_replicate hx]
    decide
  unfold Message.parse
  rw [htotal]
  dsimp only
  rw [if_neg (not_not.mpr rfl), hfirst, hsecond, show ((108 : Byte) == 66) = false from rfl, h.serial, hfieldsLen, hread,
    if_neg]
  · have hroom : ¬ (raw.length < nextMultiple (16 + (fieldsAt 16 specs).length) 8 ∨ false = true) := by
      rintro (hlt | hbad)
      · omega
      · cases hbad
    dsimp only
    rw [hzero, if_neg hroom]
    rfl
  · rintro (hkind | hnone)
    · exact hkind (by decide)
    · exact hserial hnone

theorem mod_of_nextMultiple (n : Nat) : nextMultiple n 8 % 4 = 0 := by
  unfold nextMultiple
  omega

/-- The body of a parsed call is read to its end. -/
theorem body_read {serial : UInt32} {flags : Byte} {specs : List Spec} {args : List Arg} {m : Message}
    (h : Layout serial flags specs args raw) (hraw : m.raw = raw) (hbig : m.bigEndian = false)
    (hbody : m.body = ⟨nextMultiple (16 + (fieldsAt 16 specs).length) 8, raw.length⟩)
    (htexts : ∀ a ∈ args, ∀ t ∈ a.texts, (utf8 t).length < 2 ^ 32 ∧ Clean t) :
    m.reader.args (args.map Arg.letter) = some (args, { m.reader with pos := m.body.stop }) := by
  have hpos : m.reader.pos = nextMultiple (16 + (fieldsAt 16 specs).length) 8 := by
    rw [Message.reader, hbody]
  have hend : m.reader.stop = raw.length := by rw [Message.reader, hbody]
  have hbytes : argsAt m.reader.pos args = argsAt 0 args := by
    rw [hpos]
    exact argsAt_shift 0 (mod_of_nextMultiple _) args
  have hread := args_at (r := m.reader) rfl hbig (by rw [hbytes, hpos]; exact hraw ▸ h.body)
    (by rw [hbytes, hpos, hend]; exact Nat.le_of_eq h.length.symm) htexts
  rw [hread, hbytes, hpos, ← h.length, hbody]

/-- The places that `parse` keeps, after the fields of a call. -/
theorem fields_kept {destination interface signature : Option String} {path member : String} {fs : List Field}
    (h : List.Forall₂ (Matches raw) (callSpecs destination path interface member signature) fs) {m : Message}
    (hraw : m.raw = raw) (hnone : m.path = none ∧ m.interface = none ∧ m.member = none ∧ m.signature = none) :
    let m' := fs.foldl Message.keep m
    m'.text m'.path = some path ∧ m'.text m'.interface = interface ∧ m'.text m'.member = some member ∧
      m'.text m'.signature = signature := by
  intro m'
  have hsame : m'.raw = raw := (keep_frame h m).raw.trans hraw
  have hkept : ∀ {code : Byte} {place : Message → Option Span} {o : Option String}, place m = none →
      (∀ m f r, f.value = .text r → place (Message.keep m f) = if f.code = code then some r else place m) →
      lastText code (callSpecs destination path interface member signature) none = o → m'.text (place m') = o := by
    intro code place o hempty hplace hlast
    refine text_kept ?_
    rw [hsame, ← hlast]
    exact keep_fold hplace h (by rw [hempty]; rfl)
  refine ⟨@hkept fieldPath Message.path _ hnone.1 (fun m f r hvalue => ?_) ?_,
    @hkept fieldInterface Message.interface _ hnone.2.1 (fun m f r hvalue => ?_) ?_,
    @hkept fieldMember Message.member _ hnone.2.2.1 (fun m f r hvalue => ?_) ?_,
    @hkept fieldSignature Message.signature _ hnone.2.2.2 (fun m f r hvalue => ?_) ?_⟩
  all_goals first
    | rw [keep_text hvalue]
    | cases interface <;> cases destination <;> cases signature <;> rfl

theorem spec_clean {destination interface : Option String} {path member : String} {args : List Arg}
    (hclean : ∀ s ∈ callTexts destination path interface member args, Clean s) {f : Spec}
    (hf : f ∈ callSpecs destination path interface member (signatureField args)) : Clean f.text := by
  unfold callTexts at hclean
  rcases (callSpecs_mem hf).2 with heq | heq | heq | heq | heq
  · exact hclean _ (heq ▸ List.mem_cons_self)
  · refine hclean _ (List.mem_cons_of_mem _ (List.mem_cons_of_mem _ (List.mem_append_left _ ?_)))
    exact Option.mem_toList.mpr heq.symm
  · exact hclean _ (heq ▸ List.mem_cons_of_mem _ List.mem_cons_self)
  · refine hclean _ (List.mem_cons_of_mem _ (List.mem_cons_of_mem _ (List.mem_append_right _ (List.mem_append_left _ ?_))))
    exact Option.mem_toList.mpr heq.symm
  · unfold signatureField at heq
    split at heq
    · cases heq
    · rw [Option.some.inj heq]
      exact signatureOf_clean args

end MarshalLemmas

open MarshalLemmas

/-- A call that is built is parsed, with every header field, and its arguments are read back
in the order of the signature, to the end of the body. -/
theorem call_round_trip {serial : UInt32} {flags : Byte} {destination interface : Option String} {path member : String}
    {args : List Arg} {raw : Bytes} (hbuild : buildCall serial flags destination path interface member args = some raw)
    (hserial : serial ≠ 0) (hclean : ∀ s ∈ callTexts destination path interface member args, Clean s) :
    ∃ m, Message.parse raw = some m ∧ ReadBack serial destination path interface member args raw m := by
  obtain ⟨hbytes, hmax, hfits, hargs, htexts⟩ := buildCall_bytes rfl hbuild
  have hlayout := layout_of_bytes hbytes hmax
  obtain ⟨fs, hread, hmatch, hparse⟩ := parse_layout hlayout hmax hserial
    fun f hf => ⟨(callSpecs_mem hf).1, hfits f hf, spec_clean hclean hf⟩
  generalize hspecs : callSpecs destination path interface member (signatureField args) = specs at *
  have hkept := fields_kept (hspecs ▸ hmatch) (m := callMessage serial specs raw) rfl ⟨rfl, rfl, rfl, rfl⟩
  have hframe := keep_frame hmatch (callMessage serial specs raw)
  have htext : ∀ a ∈ args, ∀ t ∈ a.texts, (utf8 t).length < 2 ^ 32 ∧ Clean t := by
    intro a ha t ht
    refine ⟨htexts a ha t ht, hclean t ?_⟩
    exact List.mem_cons_of_mem _ (List.mem_cons_of_mem _ (List.mem_append_right _ (List.mem_append_right _
      (List.mem_flatMap.mpr ⟨a, ha, ht⟩))))
  refine ⟨_, hparse, ?_, ⟨hframe.kind, hframe.serial, hframe.replySerial⟩, hkept.1, hkept.2.1, hkept.2.2.1, ?_,
    ⟨hframe.raw, ?_⟩, ?_⟩
  · rw [hlayout.fieldsLen, UInt32.toNat_ofNat_of_lt' hlayout.fieldsSmall, hspecs]
    exact ⟨fs, hread, text_matches hmatch⟩
  · rw [Message.signatureText, hkept.2.2.2]
    cases args with
    | nil => rfl
    | cons a args => rfl
  · rw [hframe.body, hargs]
    have hbody : (callMessage serial specs raw).body.of raw = argsAt 0 args := by
      have htake := hlayout.body.take
      show (raw.take raw.length).drop (nextMultiple (16 + (fieldsAt 16 specs).length) 8) = _
      rw [slice_eq, hlayout.length, Nat.add_sub_cancel_left]
      exact htake
    rw [hbody]
  · rw [signatureOf, String.toList_ofList]
    exact body_read hlayout hframe.raw hframe.bigEndian hframe.body htext

/-- A call with a number, two texts and no interface. -/
theorem small_call_read_back :
    ∃ raw m, buildCall 7 0 (some "org.a") "/" none "New" [.i32 (-1), .str "_omt._tcp", .str "", .u32 0] = some raw ∧
      Message.parse raw = some m ∧
      ReadBack 7 (some "org.a") "/" none "New" [.i32 (-1), .str "_omt._tcp", .str "", .u32 0] raw m := by
  obtain ⟨raw, hraw⟩ : ∃ raw,
      buildCall 7 0 (some "org.a") "/" none "New" [.i32 (-1), .str "_omt._tcp", .str "", .u32 0] = some raw :=
    Option.isSome_iff_exists.mp (by decide +kernel)
  obtain ⟨m, hm⟩ := call_round_trip hraw (by decide) (by unfold Clean; decide +kernel)
  exact ⟨raw, m, hraw, hm⟩

end OmtClient.Receiver.Dbus
