import OmtClient.Lib.Utf8
import OmtClient.Web.Heads

/-!
# The request heads of the deployer

`parse_head` of `crates/rpi-omt-deploy-gui/src/http.rs`, which reads a head line by line, against
the one of the appliance's Web server, which scans for line breaks by position.

1. `accepts_iff`: the heads that the deployer takes, by their lines.
2. `heads_agree`: where both servers read the same.
-/

namespace OmtClient.Gui.Http

open OmtClient.Lib OmtClient.Common OmtClient.Web.Http

def targetMax : Nat := 8191

structure Request where
  method : String
  path : String
  /-- The raw query string, without the question mark. -/
  query : String
  headers : List (String × String)
  deriving DecidableEq, Repr

/-- The header fields so far and the declared length. -/
structure Seen where
  headers : List (String × String)
  length : Option Nat
  deriving DecidableEq, Repr

/-- One header field, without its line break. -/
def readField (st : Seen) (field : Bytes) : Except Nat Seen :=
  -- obsolete line folding
  if field.head? = some 32 ∨ field.head? = some 9 then .error 400
  else
    match field.findIdx? (· == 58) with
    | none => .error 400
    | some colon =>
      let name := field.take colon
      if colon = 0 ∨ !name.all isTchar then .error 400
      else
        let value := (trimOws (field.drop (colon + 1))).2
        if value.any fun c => (c < 0x20 && c != 9) || c == 0x7F then .error 400
        else if st.headers.length = maxHeaders then .error 431
        else
          let headers := st.headers ++ [(fromUtf8Lossy name, fromUtf8Lossy value)]
          if eqIgnoreAsciiCase name (utf8 "content-length") then
            match parseU64 value (2 ^ 32 - 1) with
            | none => .error 400
            | some n => if st.length.any (· ≠ n) then .error 400 else .ok ⟨headers, some n⟩
          else if eqIgnoreAsciiCase name (utf8 "transfer-encoding") then .error 411
          else .ok ⟨headers, st.length⟩

/-- `strip_suffix(b"\r")`, when there is one. -/
def stripReturn (l : Bytes) : Bytes := if l.getLast? = some 13 then l.dropLast else l

def headLines (block : Bytes) : List Bytes := (block.splitOn 10).map stripReturn

/-- `parse_head`: the request and its declared body length, or the status to refuse it with. -/
def parseHead (block : Bytes) : Except Nat (Request × Nat) :=
  match splitOnce 32 ((headLines block).headD []) with
  | none => .error 400
  | some (method, rest) =>
    match splitOnce 32 rest with
    | none => .error 400
    | some (target, version) =>
      if method = [] ∨ methodMax < method.length ∨ !method.all isTchar then .error 400
      else if target.head? ≠ some 47 ∨ target.any fun c => c ≤ 0x20 || 0x7F ≤ c then .error 400
      else if targetMax < target.length then .error 414
      else if version ≠ utf8 "HTTP/1.1" ∧ version ≠ utf8 "HTTP/1.0" then .error 505
      else
        ((headLines block).tail.foldlM readField ⟨[], none⟩).map fun st =>
          ({ method := fromUtf8Lossy method
             path := fromUtf8Lossy (target.takeWhile (· != 63))
             query := fromUtf8Lossy ((splitOnce 63 target).elim [] Prod.snd)
             headers := st.headers }, st.length.getD 0)

/-! ## What both servers say of a head -/

/-- Both refuse the head, or both take it for the same request. -/
def Agrees (block data : Bytes) : Prop :=
  match parseHead block, Web.Http.parseHead data with
  | .ok (r, length), .complete head =>
    utf8 r.method = head.method ∧ utf8 r.path = head.path ∧
      r.headers.map (fun h => (utf8 h.1, utf8 h.2)) = head.headers.map (fun h => (span data h.1, span data h.2)) ∧
      length = head.contentLength
  | .error _, .refuse _ => True
  | _, _ => False

instance (block data : Bytes) : Decidable (Agrees block data) := by
  unfold Agrees
  split <;> infer_instance

/-- Line breaks are CR LF, and no CR stands before the blank line. -/
def Strict (block : Bytes) : Prop := block = [13, 10].intercalate (headLines block)

/-- The target of the request line, if there is one, is within the limits of both servers. -/
def Limited (block : Bytes) : Prop := ∀ method target version rest,
  headLines block = (method ++ 32 :: (target ++ 32 :: version)) :: rest → 32 ∉ method → 32 ∉ target →
    target.length ≤ targetMax ∧ (target.takeWhile (· != 63)).length ≤ pathMax

/-- A field without its line break. -/
def fieldLine (f : Bytes × Bytes) : Bytes := f.1 ++ 58 :: f.2

/-- The lines of a head. -/
def lines (t : HeadText) : List Bytes := (t.method ++ 32 :: (t.target ++ 32 :: t.version)) :: t.fields.map fieldLine

/-- A head that both servers take when its line breaks are as they should be. -/
structure Sound (t : HeadText) : Prop where
  framed : t.Framed
  served : t.Served
  method : t.method.length ≤ methodMax
  length : ∀ f ∈ t.fields, named "content-length" f = true → decimal (fieldValue f) < 2 ^ 32

namespace HttpLemmas

open Web.Http.HeadsLemmas

variable {data block l : Bytes} {stop pos : Nat} {st : Fields} {g g' : Seen} {f : Bytes × Bytes} {fs : List (Bytes × Bytes)}
  {ls : List Bytes} {t : HeadText}

/-! ### Fields -/

/-- The two readers have seen the same. -/
structure Sim (st : Fields) (g : Seen) : Prop where
  few : st.headers.length = g.headers.length
  have_ : st.haveLength = g.length.isSome
  length : st.contentLength = g.length.getD 0

/-- What a field adds. -/
def more (g : Seen) (f : Bytes × Bytes) : Seen where
  headers := g.headers ++ [(fromUtf8Lossy f.1, fromUtf8Lossy (fieldValue f))]
  length := if named "content-length" f = true then some (decimal (fieldValue f)) else g.length

theorem Sim.more (h : Sim st g) (pos : Nat) (f : Bytes × Bytes) : Sim (added st pos f) (more g f) := by
  refine ⟨?_, ?_, ?_⟩
  · rw [added, HttpLemmas.more, List.length_append, List.length_append, h.few]
    rfl
  · rw [added, HttpLemmas.more, h.have_]
    by_cases hlength : named "content-length" f = true
    · simp [hlength]
    · simp [hlength]
  · rw [added, HttpLemmas.more]
    by_cases hlength : named "content-length" f = true
    · simp [hlength]
    · simp [hlength, h.length]

/-- A field that fits is read as it stands. -/
theorem readField_line (hsim : Sim st g) (h : Fits st f) : readField g (fieldLine f) = .ok (more g f) := by
  have hname (c : Byte) (hc : c ∈ f.1) := tchar_plain c (List.all_eq_true.mp h.name.2 c hc)
  have hvalue : (trimOws f.2).2 = fieldValue f := rfl
  rw [readField, fieldLine, if_neg (token_head h.name), byte_found fun c hc => (hname c hc).2.2.1]
  dsimp only
  rw [List.take_left, if_neg (token_name h.name), drop_name, hvalue, if_neg (Bool.eq_false_iff.mp (control_iff.mpr h.value)), ← hsim.few,
    if_neg h.few]
  have hcoded : eqIgnoreAsciiCase f.1 (utf8 "transfer-encoding") = false := h.uncoded
  by_cases hlength : named "content-length" f = true
  · obtain ⟨hne, hdigits, hfits, hsame⟩ := h.length hlength
    have hparse : parseU64 (fieldValue f) (2 ^ 32 - 1) = some (decimal (fieldValue f)) :=
      (parseU64_eq_some (by decide)).mpr ⟨hne, hdigits, Nat.le_pred_of_lt hfits, rfl⟩
    have hagree : ¬ g.length.any (· ≠ decimal (fieldValue f)) = true := by
      cases hg : g.length with
      | none => simp
      | some n =>
        have hn := hsame (by rw [hsim.have_, hg]; rfl)
        rw [hsim.length, hg] at hn
        simp [hn]
    rw [if_pos (show eqIgnoreAsciiCase f.1 (utf8 "content-length") = true from hlength), hparse]
    dsimp only
    rw [if_neg hagree, more, if_pos hlength]
  · rw [if_neg (show ¬ eqIgnoreAsciiCase f.1 (utf8 "content-length") = true from hlength), hcoded, if_neg Bool.false_ne_true,
      more, if_neg hlength]

/-- And nothing else is read. -/
theorem readField_fits (hsim : Sim st g) (h : readField g l = .ok g') : ∃ f, l = fieldLine f ∧ Fits st f := by
  unfold readField at h
  split at h
  · cases h
  split at h
  · cases h
  next colon hcolon =>
  dsimp only at h
  split at h
  · cases h
  next hname =>
  split at h
  · cases h
  next hcontrol =>
  split at h
  · cases h
  next hfew =>
  have hlt : colon < l.length := (List.findIdx?_eq_some_iff_getElem.mp hcolon).1
  have htoken := token_of_name hlt hname
  have hvalue := control_iff.mp (Bool.eq_false_iff.mpr hcontrol)
  have hfew' : st.headers.length ≠ maxHeaders := hsim.few ▸ hfew
  refine ⟨(l.take colon, l.drop (colon + 1)), byte_split hcolon, ?_⟩
  split at h
  next hlength =>
    split at h
    · cases h
    next n hparse =>
      split at h
      · cases h
      next hagree =>
        obtain ⟨hne, hdigits, hmax, hn⟩ := (parseU64_eq_some (by decide)).mp hparse
        refine ⟨htoken, hvalue, hfew', (@named_apart (l.take colon, l.drop (colon + 1)) hlength).2, fun _ =>
          ⟨hne, hdigits, Nat.lt_of_le_pred (by decide) hmax, fun hhave => ?_⟩⟩
        rw [hsim.have_] at hhave
        obtain ⟨m, hm⟩ := Option.isSome_iff_exists.mp hhave
        rw [hm] at hagree
        rw [hsim.length, hm]
        have hsame : m = n := by simpa using hagree
        exact hn.trans hsame.symm
  next hlength =>
    split at h
    · cases h
    next hcoded => exact ⟨htoken, hvalue, hfew', Bool.eq_false_iff.mpr hcoded, fun hyes => absurd hyes hlength⟩

/-- What all fields add. -/
def moreAll : Seen → List (Bytes × Bytes) → Seen := List.foldl more

theorem readFields_lines (hsim : Sim st g) (h : FitsAll st pos fs) :
    (fs.map fieldLine).foldlM readField g = .ok (moreAll g fs) ∧ Sim (addedAll st pos fs) (moreAll g fs) := by
  induction fs generalizing st pos g with
  | nil => exact ⟨rfl, hsim⟩
  | cons f fs ih =>
    rw [List.map_cons, List.foldlM_cons, readField_line hsim h.1]
    exact ih (hsim.more pos f) h.2

theorem readFields_fit (hsim : Sim st g) (h : ls.foldlM readField g = .ok g') : ∃ fs, ls = fs.map fieldLine ∧ FitsAll st pos fs := by
  induction ls generalizing st pos g with
  | nil => exact ⟨[], rfl, trivial⟩
  | cons l ls ih =>
    rw [List.foldlM_cons] at h
    cases hone : readField g l with
    | error status =>
      rw [hone] at h
      cases h
    | ok g₁ =>
      rw [hone] at h
      obtain ⟨f, rfl, hf⟩ := readField_fits hsim hone
      rw [readField_line hsim hf] at hone
      obtain rfl := Except.ok.inj hone
      obtain ⟨fs, rfl, hfs⟩ := ih (hsim.more pos f) h
      exact ⟨f :: fs, rfl, hf, hfs⟩

theorem moreAll_headers (g : Seen) (fs : List (Bytes × Bytes)) : (moreAll g fs).headers =
    g.headers ++ fs.map fun f => (fromUtf8Lossy f.1, fromUtf8Lossy (fieldValue f)) := by
  induction fs generalizing g with
  | nil => exact (List.append_nil _).symm
  | cons f fs ih => exact (ih (more g f)).trans (List.append_assoc _ _ _)

/-! ### Heads -/

/-- What the deployer makes of a head. -/
def request (t : HeadText) : Request × Nat :=
  ({ method := fromUtf8Lossy t.method
     path := fromUtf8Lossy (t.target.takeWhile (· != 63))
     query := fromUtf8Lossy ((splitOnce 63 t.target).elim [] Prod.snd)
     headers := t.fields.map fun f => (fromUtf8Lossy f.1, fromUtf8Lossy (fieldValue f)) }, t.head.contentLength)

/-- The fields of a request as bytes. -/
theorem request_headers (t : HeadText) : (request t).1.headers.map (fun h => (utf8 h.1, utf8 h.2)) =
    t.fields.map fun f => (utf8 (fromUtf8Lossy f.1), utf8 (fromUtf8Lossy (fieldValue f))) := List.map_map

theorem sound_iff : Sound t ↔ (Token t.method ∧ t.method.length ≤ methodMax) ∧
    (t.target.head? = some 47 ∧ ∀ c ∈ t.target, 0x20 < c ∧ c < 0x7F) ∧
    (t.version = utf8 "HTTP/1.1" ∨ t.version = utf8 "HTTP/1.0") ∧
    FitsAll ⟨[], 0, false, false, false⟩ t.line.length t.fields := by
  rw [fits_iff]
  constructor
  · intro h
    obtain ⟨n, hn⟩ := h.framed.length
    refine ⟨⟨h.framed.method, h.method⟩, h.served.target, h.served.version, fun f hf => ?_, h.framed.few, n, ?_⟩
    · refine ⟨h.framed.names f hf, h.served.values f hf, h.framed.uncoded f hf, fun hnamed => ?_⟩
      exact ⟨(hn f hf hnamed).1, (hn f hf hnamed).2.1, h.length f hf hnamed⟩
    · exact fun f hf hnamed => (hn f hf hnamed).2.2
  · rintro ⟨hmethod, htarget, hversion, hfits, hfew, n, hn⟩
    have hversions : (∀ c ∈ utf8 "HTTP/1.1", c ≠ 13 ∧ c ≠ 10) ∧ ∀ c ∈ utf8 "HTTP/1.0", c ≠ 13 ∧ c ≠ 10 := by decide
    have hunbroken : ∀ c ∈ t.target ++ t.version ++ t.fields.flatMap Prod.snd, c ≠ 13 ∧ c ≠ 10 := by
      simp only [List.forall_mem_append]
      refine ⟨⟨fun c hc => ?_, ?_⟩, fun c hc => ?_⟩
      · obtain ⟨hcr, hlf, -⟩ := visible_plain c (htarget.2 c hc)
        exact ⟨hcr, hlf⟩
      · rcases hversion with h | h
        · rw [h]
          exact hversions.1
        · rw [h]
          exact hversions.2
      · obtain ⟨f, hf, hcf⟩ := List.mem_flatMap.mp hc
        exact rest_plain (hfits f hf).2.1 c hcf
    refine ⟨⟨hmethod.1, hunbroken, fun f hf => (hfits f hf).1, hfew, fun f hf => (hfits f hf).2.2.1, n, fun f hf hnamed => ?_⟩,
      ⟨htarget, hversion, fun f hf => (hfits f hf).2.1⟩, hmethod.2, fun f hf hnamed => ((hfits f hf).2.2.2 hnamed).2.2⟩
    exact ⟨((hfits f hf).2.2.2 hnamed).1, ((hfits f hf).2.2.2 hnamed).2.1, hn f hf hnamed⟩

theorem target_free (h : Sound t) : (32 : Byte) ∉ t.method ∧ (32 : Byte) ∉ t.target := by
  refine ⟨fun hin => ?_, fun hin => ?_⟩
  · exact (tchar_plain 32 (List.all_eq_true.mp h.framed.method.2 32 hin)).2.2.2.1 rfl
  · exact (visible_plain 32 (h.served.target.2 32 hin)).2.2 rfl

theorem sim_start : Sim ⟨[], 0, false, false, false⟩ ⟨[], none⟩ := ⟨rfl, rfl, rfl⟩

/-- A head is taken by its lines. -/
theorem parseHead_lines (hlines : headLines block = lines t) (h : Sound t) (hlimit : t.target.length ≤ targetMax) :
    parseHead block = .ok (request t) := by
  obtain ⟨hmethod, htarget, hversion, hfits⟩ := (sound_iff).mp h
  obtain ⟨hfree, hfree'⟩ := target_free h
  obtain ⟨hfold, hsim⟩ := readFields_lines sim_start hfits
  have hbad : ¬ (t.method = [] ∨ methodMax < t.method.length ∨ (!t.method.all isTchar) = true) := by
    rw [hmethod.1.2]
    rintro (hnil | hlong | hno)
    · exact hmethod.1.1 hnil
    · exact absurd hmethod.2 (Nat.not_le_of_lt hlong)
    · exact Bool.false_ne_true hno
  have hseen : ¬ (t.target.head? ≠ some 47 ∨ (t.target.any fun c => c ≤ 0x20 || 0x7F ≤ c) = true) := by
    rw [visible_iff.mpr htarget.2, not_or, not_not]
    exact ⟨htarget.1, Bool.false_ne_true⟩
  have hknown : ¬ (t.version ≠ utf8 "HTTP/1.1" ∧ t.version ≠ utf8 "HTTP/1.0") := fun hno => hversion.elim hno.1 hno.2
  have hlength := addedAll_length hfits
  rw [parseHead, hlines, lines, List.headD_cons, splitOnce_append hfree]
  dsimp only
  rw [splitOnce_append hfree']
  dsimp only
  rw [if_neg hbad, if_neg hseen, if_neg (Nat.not_lt_of_le hlimit), if_neg hknown, List.tail_cons, hfold, Except.map, request,
    moreAll_headers, ← hsim.length, hlength]
  rfl

/-- And in no other way. -/
theorem parseHead_sound {x : Request × Nat} (h : parseHead block = .ok x) :
    ∃ t, headLines block = lines t ∧ Sound t ∧ t.target.length ≤ targetMax := by
  unfold parseHead at h
  split at h
  · cases h
  next method rest hmethod =>
  split at h
  · cases h
  next target version htarget =>
  split at h
  · cases h
  next hname =>
  split at h
  · cases h
  next hseen =>
  split at h
  · cases h
  next hlimit =>
  split at h
  · cases h
  next hknown =>
  cases hfold : (headLines block).tail.foldlM readField ⟨[], none⟩ with
  | error status =>
    rw [hfold] at h
    cases h
  | ok st =>
    obtain ⟨hfirst, -⟩ := splitOnce_eq_some.mp hmethod
    obtain ⟨hrest, -⟩ := splitOnce_eq_some.mp htarget
    have hall : ∃ fs, (headLines block).tail = fs.map fieldLine ∧
        FitsAll ⟨[], 0, false, false, false⟩ (HeadText.line ⟨method, target, version, []⟩).length fs := readFields_fit sim_start hfold
    obtain ⟨fs, hfs, hfits⟩ := hall
    simp only [not_or, Bool.not_eq_true', Bool.not_eq_false, Nat.not_lt, not_not, not_and_or, Bool.not_eq_true] at hname hseen hknown hlimit
    refine ⟨⟨method, target, version, fs⟩, ?_, (sound_iff).mpr ⟨⟨⟨hname.1, hname.2.2⟩, hname.2.1⟩, ⟨hseen.1, visible_iff.mp hseen.2⟩,
      hknown, hfits⟩, hlimit⟩
    rw [lines, ← hfs, ← hrest, ← hfirst]
    cases hall : headLines block with
    | nil =>
      rw [hall] at hfirst
      exact absurd hfirst (by simp)
    | cons l ls => rfl

/-! ### Line breaks -/

theorem stripReturn_eq (h : 13 ∉ l) : stripReturn l = l := if_neg fun hlast => h (List.mem_of_getLast? hlast)

/-- Lines that are joined by line breaks are read back. -/
theorem lines_joined (hne : ls ≠ []) (hfree : ∀ l ∈ ls, (10 : Byte) ∉ l ∧ (13 : Byte) ∉ l) :
    headLines ([13, 10].intercalate ls) = ls := by
  induction ls with
  | nil => exact absurd rfl hne
  | cons l ls ih =>
    obtain ⟨⟨hlf, hcr⟩, hrest⟩ := List.forall_mem_cons.mp hfree
    cases ls with
    | nil =>
      have hone : [13, 10].intercalate [l] = l := by simp [List.intercalate]
      rw [hone, headLines, List.splitOn_eq_singleton hlf, List.map_singleton, stripReturn_eq hcr]
    | cons l' ls =>
      have hlf' : (10 : Byte) ∉ l ++ [13] := by
        rw [List.mem_append, List.mem_singleton, not_or]
        exact ⟨hlf, by decide⟩
      have hcut : [13, 10].intercalate (l :: l' :: ls) = (l ++ [13]) ++ 10 :: [13, 10].intercalate (l' :: ls) := by
        rw [List.intercalate_cons_cons]
        simp
      have hstrip : stripReturn (l ++ [13]) = l := by
        rw [stripReturn, if_pos List.getLast?_concat, List.dropLast_concat]
      rw [hcut, headLines, List.splitOn_append_cons_self_of_not_mem hlf', List.map_cons, hstrip]
      exact congrArg (l :: ·) (ih (by simp) hrest)

theorem joined_breaks (hne : ls ≠ []) : [13, 10].intercalate ls ++ [13, 10] = ls.flatMap fun l => l ++ [(13 : Byte), 10] := by
  induction ls with
  | nil => exact absurd rfl hne
  | cons l ls ih =>
    cases ls with
    | nil => simp [List.intercalate]
    | cons l' ls =>
      rw [List.intercalate_cons_cons, List.append_assoc, ih (by simp)]
      rfl

/-- A head is its lines with their line breaks, and an empty one. -/
theorem bytes_joined (t : HeadText) : t.bytes = [13, 10].intercalate (lines t) ++ [13, 10, 13, 10] := by
  have hfield : fieldText = fun f => fieldLine f ++ [13, 10] := by
    funext f
    simp [fieldText, fieldLine]
  have hlines : t.line ++ t.fields.flatMap fieldText = [13, 10].intercalate (lines t) ++ [13, 10] := by
    rw [joined_breaks (by simp [lines]), lines, List.flatMap_cons, List.flatMap_map, HeadText.line, hfield]
    simp
  rw [HeadText.bytes, ← List.append_assoc, hlines, List.append_assoc]
  rfl

theorem lines_free (h : Sound t) : ∀ l ∈ lines t, (10 : Byte) ∉ l ∧ (13 : Byte) ∉ l := by
  have hbreak : ∀ c : Byte, c = 10 ∨ c = 13 → c ≠ 32 ∧ c ≠ 58 := by
    rintro c (rfl | rfl) <;> decide
  have hunbroken := h.framed.unbroken
  simp only [List.forall_mem_append] at hunbroken
  obtain ⟨⟨htarget, hversion⟩, hfields⟩ := hunbroken
  have hnone (c : Byte) (hc : c = 10 ∨ c = 13) : ∀ l ∈ lines t, c ∉ l := by
    intro l hl hin
    rcases List.mem_cons.mp hl with rfl | hl
    · simp only [List.mem_append, List.mem_cons] at hin
      rcases hin with hin | hin | hin | hin | hin
      · have hplain := tchar_plain c (List.all_eq_true.mp h.framed.method.2 c hin)
        exact hc.elim hplain.2.1 hplain.1
      · exact (hbreak c hc).1 hin
      · exact hc.elim (htarget c hin).2 (htarget c hin).1
      · exact (hbreak c hc).1 hin
      · exact hc.elim (hversion c hin).2 (hversion c hin).1
    · obtain ⟨f, hf, rfl⟩ := List.mem_map.mp hl
      rw [fieldLine, List.mem_append, List.mem_cons] at hin
      rcases hin with hin | hin | hin
      · have hplain := tchar_plain c (List.all_eq_true.mp (h.framed.names f hf).2 c hin)
        exact hc.elim hplain.2.1 hplain.1
      · exact (hbreak c hc).2 hin
      · have hplain := hfields c (List.mem_flatMap.mpr ⟨f, hf, hin⟩)
        exact hc.elim hplain.2 hplain.1
  exact fun l hl => ⟨hnone 10 (.inl rfl) l hl, hnone 13 (.inr rfl) l hl⟩

/-! ### The appliance's server -/

theorem headLen_eq {head : Head} (hfind : findSub blankLine (data.take maxHeaderBytes) = some stop)
    (h : Web.Http.parseHead data = .complete head) : head.headLen = stop + 4 := by
  unfold Web.Http.parseHead at h
  rw [hfind] at h
  unfold parseBlock at h
  dsimp only at h
  split at h
  · cases h
  split at h
  · cases h
  exact congrArg Head.headLen (Parse.complete.inj h).symm

/-- The server takes what has line breaks as they should be. -/
theorem web_sound {head : Head} (hfind : findSub blankLine (data.take maxHeaderBytes) = some stop)
    (h : Web.Http.parseHead data = .complete head) :
    ∃ t, headLines (data.take stop) = lines t ∧ Sound t ∧ Strict (data.take stop) := by
  obtain ⟨t, rest, hdata, -, hline, hfits, rfl⟩ := complete_text h
  obtain ⟨hwhole, hblock, -⟩ := blank_split hfind
  have hsound : Sound t := (sound_iff).mpr ⟨hline.name, hline.visible, hline.known, hfits⟩
  have hlen : t.bytes.length = stop + 4 := headLen_eq hfind h
  have hbytes : [13, 10].intercalate (lines t) = data.take stop := by
    have hjoined := bytes_joined t
    rw [hjoined, List.length_append] at hlen
    rw [hjoined, List.append_assoc] at hdata
    have hlen' : ([13, 10].intercalate (lines t)).length = stop := by
      have hfour : ([13, 10, 13, 10] : Bytes).length = 4 := rfl
      omega
    rw [hdata, ← hlen', List.take_left]
  have hlines := lines_joined (by simp [lines]) (lines_free hsound)
  rw [hbytes] at hlines
  exact ⟨t, hlines, hsound, by rw [Strict, hlines, hbytes]⟩

/-- And reads it as what it is. -/
theorem web_complete (hfind : findSub blankLine (data.take maxHeaderBytes) = some stop)
    (hlines : headLines (data.take stop) = lines t) (hstrict : Strict (data.take stop)) (h : Sound t)
    (hpath : (t.target.takeWhile (· != 63)).length ≤ pathMax) :
    Web.Http.parseHead data = .complete t.head ∧
      t.head.headers.map (fun h => (span data h.1, span data h.2)) = t.fields.map (fun f => (f.1, fieldValue f)) := by
  obtain ⟨hwhole, hblock, -⟩ := blank_split hfind
  obtain ⟨hname, hvisible, hknown, hfits⟩ := (sound_iff).mp h
  have hbytes : t.bytes = data.take stop ++ [13, 10, 13, 10] := by rw [bytes_joined, ← hlines, ← hstrict]
  have hdata : data = t.bytes ++ data.drop (stop + 4) := by
    rw [hbytes, List.append_assoc]
    exact hwhole
  have hlen : t.bytes.length ≤ maxHeaderBytes := by
    rw [hbytes, List.length_append, hblock]
    exact (Web.Http.HttpLemmas.blankLine_bounds hfind).2
  refine ⟨?_, ?_⟩
  · rw [hdata]
    exact text_complete hlen ⟨hname, hvisible, hpath, hknown⟩ hfits _
  · have hfrom : data.drop t.line.length = t.fields.flatMap fieldText ++ ([13, 10] ++ data.drop (stop + 4)) := by
      conv => lhs; rw [hdata]
      rw [HeadText.bytes, List.append_assoc, List.append_assoc, List.drop_left]
    refine (spans_denote hfrom ?_).1
    rw [hdata, HeadText.bytes, List.length_append, List.length_append]
    omega

theorem lossy_valid {b : Bytes} : utf8 (fromUtf8Lossy b) = b ↔ Valid b := by
  constructor
  · exact fun h => ⟨_, h⟩
  · rintro ⟨s, rfl⟩
    rw [fromUtf8Lossy_utf8]

theorem visible_valid {b : Bytes} (h : ∀ c ∈ b, (0x20 : Byte) < c ∧ c < 0x7F) : utf8 (fromUtf8Lossy b) = b := by
  refine (lossy_valid).mpr (valid_ascii fun c hc => ?_)
  exact lt_trans (UInt8.lt_iff_toNat_lt.mp (h c hc).2) (by decide)

theorem token_valid {b : Bytes} (h : b.all isTchar = true) : utf8 (fromUtf8Lossy b) = b := by
  have hall : ∀ c : Byte, isTchar c = true → (0x20 : Byte) < c ∧ c < 0x7F := forall_byte (by decide +kernel)
  exact visible_valid fun c hc => hall c (List.all_eq_true.mp h c hc)

end HttpLemmas

open HttpLemmas

/-- Both servers read a head the same, just when it is not one that would be sound but for its line
breaks, or that has a value which is no text. -/
theorem heads_agree (data : Bytes) (stop : Nat) (hfind : findSub blankLine (data.take maxHeaderBytes) = some stop)
    (hlimits : Limited (data.take stop)) : Agrees (data.take stop) data ↔
      ∀ t, Sound t → headLines (data.take stop) = lines t →
        Strict (data.take stop) ∧ ∀ f ∈ t.fields, Valid (fieldValue f) := by
  have hwithin {t : HeadText} (h : Sound t) (hlines : headLines (data.take stop) = lines t) :
      t.target.length ≤ targetMax ∧ (t.target.takeWhile (· != 63)).length ≤ pathMax := by
    obtain ⟨hfree, hfree'⟩ := target_free h
    exact hlimits t.method t.target t.version _ hlines hfree hfree'
  constructor
  · intro hagree t hsound hlines
    obtain ⟨htarget, hpath⟩ := hwithin hsound hlines
    rw [Agrees, parseHead_lines hlines hsound htarget] at hagree
    cases hweb : Web.Http.parseHead data with
    | incomplete =>
      rw [hweb] at hagree
      exact hagree.elim
    | refuse status =>
      rw [hweb] at hagree
      exact hagree.elim
    | complete head =>
      obtain ⟨_, _, _, hstrict⟩ := web_sound hfind hweb
      obtain ⟨hcomplete, hheaders⟩ := web_complete hfind hlines hstrict hsound hpath
      rw [hcomplete] at hagree
      obtain ⟨-, -, hsame, -⟩ := hagree
      have hsame' := (request_headers t).symm.trans (hsame.trans hheaders)
      exact ⟨hstrict, fun f hf => lossy_valid.mp (congrArg Prod.snd (List.map_inj_left.mp hsame' f hf))⟩
  · intro h
    rw [Agrees]
    cases hgui : parseHead (data.take stop) with
    | error status =>
      cases hweb : Web.Http.parseHead data with
      | incomplete =>
        unfold Web.Http.parseHead at hweb
        rw [hfind] at hweb
        unfold parseBlock at hweb
        dsimp only at hweb
        split at hweb
        · cases hweb
        split at hweb <;> cases hweb
      | refuse status => trivial
      | complete head =>
        obtain ⟨t, hlines, hsound, _⟩ := web_sound hfind hweb
        rw [parseHead_lines hlines hsound (hwithin hsound hlines).1] at hgui
        cases hgui
    | ok x =>
      obtain ⟨t, hlines, hsound, htarget⟩ := parseHead_sound hgui
      obtain ⟨hstrict, hvalid⟩ := h t hsound hlines
      obtain ⟨hcomplete, hheaders⟩ := web_complete hfind hlines hstrict hsound (hwithin hsound hlines).2
      rw [parseHead_lines hlines hsound htarget] at hgui
      obtain rfl := Except.ok.inj hgui
      rw [hcomplete]
      refine ⟨token_valid hsound.framed.method.2, visible_valid fun c hc => ?_, ?_, rfl⟩
      · exact hsound.served.target.2 c ((List.takeWhile_prefix _).subset hc)
      · refine (request_headers t).trans (Eq.trans ?_ hheaders.symm)
        refine List.map_congr_left fun f hf => Prod.ext ?_ ?_
        · exact token_valid (hsound.framed.names f hf).2
        · exact lossy_valid.mpr (hvalid f hf)

/-- A request with fields and a body. -/
def formPost : Bytes := utf8 "POST /a HTTP/1.1\r\nHost: a\r\nContent-Length: 3\r\n\r\nx=1"

theorem formPost_agrees : Agrees (formPost.take 44) formPost ↔
    ∀ t, Sound t → headLines (formPost.take 44) = lines t → Strict (formPost.take 44) ∧ ∀ f ∈ t.fields, Valid (fieldValue f) := by
  refine heads_agree formPost 44 (by decide +kernel) fun method target version rest hlines hmethod htarget => ?_
  have hhead : (headLines (formPost.take 44)).head? = some (utf8 "POST" ++ 32 :: (utf8 "/a" ++ 32 :: utf8 "HTTP/1.1")) := by
    decide +kernel
  rw [hlines] at hhead
  have hfirst := (Option.some.inj hhead).symm
  have hcut := (splitOnce_eq_some.mpr ⟨hfirst, hmethod⟩).symm.trans (splitOnce_append (by decide))
  obtain ⟨-, hrest⟩ := Prod.mk.inj (Option.some.inj hcut)
  have hcut' := (splitOnce_eq_some.mpr ⟨hrest.symm, htarget⟩).symm.trans (splitOnce_append (by decide))
  obtain ⟨rfl, -⟩ := Prod.mk.inj (Option.some.inj hcut')
  decide

/-- A bare line feed ends a line for the deployer, and is a part of the version for the appliance. -/
theorem feed_differs : ¬ Agrees ((utf8 "GET / HTTP/1.1\nHost: a\r\n\r\n").take 22) (utf8 "GET / HTTP/1.1\nHost: a\r\n\r\n") := by
  decide +kernel

end OmtClient.Gui.Http
