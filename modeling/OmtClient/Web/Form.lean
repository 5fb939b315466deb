import OmtClient.Lib.Numeral
import OmtClient.Receiver.Status
import OmtClient.Web.Http

/-!
# Forms and cookies

`Form`, `cookie_value` and `request_cookie` of `crates/omt-web/src/app.rs`: the fields
of an `application/x-www-form-urlencoded` body, and the value of a cookie.

1. `form_exact`: a body is parsed by the URL standard, up to its first names.
-/

namespace OmtClient.Web

open OmtClient.Lib Http

def formMax : Nat := 32

/-! ## The form -/

/-- The bytes that an encoded text stands for: `+` is a space, `%XX` a byte, and a
malformed escape itself. -/
def unescape : Bytes → Bytes
  | [] => []
  | 43 :: rest => 32 :: unescape rest
  | 37 :: hi :: lo :: rest =>
    match toDigit 16 hi, toDigit 16 lo with
    | some h, some l => UInt8.ofNat (h * 16 + l) :: unescape rest
    | _, _ => 37 :: unescape (hi :: lo :: rest)
  | c :: rest => c :: unescape rest

/-- `decode`: a text without NUL. -/
def decode (s : Bytes) : Option String :=
  let out := unescape s
  if out.contains 0 then none else ofUtf8 out

/-- The fields of a form, in order of first appearance. -/
abbrev Form := List (String × String)

/-- Gives the first field of this name another value. -/
def Form.update (key value : String) : Form → Form
  | [] => []
  | (k, v) :: rest => if k = key then (k, value) :: rest else (k, v) :: Form.update key value rest

/-- A pair is added to the form: a name that is there gets the value. -/
def Form.insert (form : Form) (key value : String) : Form :=
  if form.any fun p => p.1 == key then form.update key value
  else if form.length < formMax then form ++ [(key, value)]
  else form

/-- The name and the value of a pair, still encoded. -/
def cutPair (pair : Bytes) : Bytes × Bytes := (splitOnce 61 pair).getD (pair, [])

/-- One pair of the body, unless an earlier one was refused. -/
def Form.step (form : Option Form) (pair : Bytes) : Option Form :=
  form.bind fun form =>
    match decode (cutPair pair).1, decode (cutPair pair).2 with
    | some key, some value => some (form.insert key value)
    | _, _ => none

/-- `Form::parse`: one pair that cannot be decoded empties the form. -/
def Form.parse (body : Bytes) : Form :=
  (((body.splitOn 38).filter fun pair => !pair.isEmpty).foldl Form.step (some [])).getD []

def Form.get (form : Form) (key : String) : Option String := form.lookup key

/-- `field`: the value, or else the empty text. -/
def Form.field (form : Form) (key : String) : String := (form.get key).getD ""

/-! ### What a body stands for -/

def plusToSpace (c : Byte) : Byte := if c = 43 then 32 else c

/-- Percent-decoding of the URL standard: `%XX` is a byte, and every other byte itself. -/
def percentDecode : Bytes → Bytes
  | 37 :: hi :: lo :: rest =>
    match toDigit 16 hi, toDigit 16 lo with
    | some h, some l => UInt8.ofNat (h * 16 + l) :: percentDecode rest
    | _, _ => 37 :: percentDecode (hi :: lo :: rest)
  | c :: rest => c :: percentDecode rest
  | [] => []

/-- The text of a name or of a value: UTF-8 without NUL. -/
def urlDecode (s : Bytes) : Option String :=
  let out := percentDecode (s.map plusToSpace)
  if 0 ∈ out then none else ofUtf8 out

/-- The pairs of a body, if all of them have texts. -/
def urlencoded (body : Bytes) : Option Form :=
  ((body.splitOn 38).filter (· ≠ [])).mapM fun pair =>
    (urlDecode (cutPair pair).1).bind fun name => (urlDecode (cutPair pair).2).map fun value => (name, value)

/-- The first `formMax` names, each with its last value. -/
def Form.restrict (pairs : Form) : Form :=
  ((pairs.map Prod.fst).eraseDups.take formMax).map fun name => (name, (pairs.reverse.lookup name).getD "")

namespace FormLemmas

variable {s : Bytes} {form pairs : Form} {key value name : String} {names : List String}

theorem plus_not_digit : toDigit 16 43 = none ∧ toDigit 16 32 = none := by decide

theorem toDigit_plus (c : Byte) : toDigit 16 (plusToSpace c) = toDigit 16 c := by
  unfold plusToSpace
  split
  next h => rw [h, plus_not_digit.1, plus_not_digit.2]
  · rfl

/-- A plus sign is never in an escape, so that it can be replaced before. -/
theorem unescape_eq (s : Bytes) : unescape s = percentDecode (s.map plusToSpace) := by
  induction s using unescape.induct with
  | case1 => rfl
  | case2 rest ih =>
    rw [unescape, ih]
    show _ = percentDecode (32 :: rest.map plusToSpace)
    rw [percentDecode]
    · rintro _ _ _ ⟨⟩
  | case3 hi lo rest h l hhi hlo ih =>
    show _ = percentDecode (37 :: plusToSpace hi :: plusToSpace lo :: rest.map plusToSpace)
    rw [unescape, percentDecode, toDigit_plus, toDigit_plus, hhi, hlo]
    dsimp only
    rw [ih]
  | case4 hi lo rest hno ih =>
    show _ = percentDecode (37 :: plusToSpace hi :: plusToSpace lo :: rest.map plusToSpace)
    rw [unescape, percentDecode, toDigit_plus, toDigit_plus]
    cases hhi : toDigit 16 hi with
    | none => exact congrArg (37 :: ·) ih
    | some h =>
      cases hlo : toDigit 16 lo with
      | none => exact congrArg (37 :: ·) ih
      | some l => exact absurd hlo fun hlo => hno h l hhi hlo
  | case5 c rest hplus hescape ih =>
    have hc : plusToSpace c = c := if_neg fun h => hplus h
    rw [unescape, ih, List.map_cons, hc, percentDecode]
    · intro hi lo more hpercent hrest
      obtain ⟨hi', more', rfl, -, hmore⟩ := List.map_eq_cons_iff.mp hrest
      obtain ⟨lo', more'', rfl, -, -⟩ := List.map_eq_cons_iff.mp hmore
      exact hescape hi' lo' more'' hpercent rfl
    · exact hplus
    · exact hescape

theorem decode_eq (s : Bytes) : decode s = urlDecode s := by
  unfold decode urlDecode
  simp only [unescape_eq, List.contains_iff_mem]

/-! ### Names and values -/

/-- The names of a form, each with a value by `value`. -/
def filled (value : String → String) (names : List String) : Form := names.map fun name => (name, value name)

theorem filled_any (value : String → String) : ((filled value names).any fun p => p.1 == key) = decide (key ∈ names) := by
  rw [filled, List.any_map, Bool.eq_iff_iff, List.any_eq_true, decide_eq_true_iff]
  constructor
  · rintro ⟨name, hname, heq⟩
    rw [← beq_iff_eq.mp heq]
    exact hname
  · exact fun h => ⟨key, h, beq_self_eq_true key⟩

/-- The value of a name that is not there does not matter. -/
theorem filled_other (h : key ∉ names) (value : String → String) (v : String) :
    filled (fun name => if name = key then v else value name) names = filled value names := by
  refine List.map_congr_left fun name hname => ?_
  have hne : name ≠ key := by
    rintro rfl
    exact h hname
  dsimp only
  rw [if_neg hne]

theorem filled_update (hnodup : names.Nodup) (value : String → String) (v : String) :
    (filled value names).update key v = filled (fun name => if name = key then v else value name) names := by
  induction names with
  | nil => rfl
  | cons name names ih =>
    obtain ⟨hnew, hnodup⟩ := List.nodup_cons.mp hnodup
    show Form.update key v ((name, value name) :: filled value names) = _
    rw [Form.update]
    split
    next h =>
      subst h
      rw [← filled_other hnew value v, filled, filled, List.map_cons, if_pos rfl]
    next h =>
      rw [ih hnodup, filled, filled, List.map_cons, if_neg h]

theorem nodup_eraseDups (l : List String) : l.eraseDups.Nodup := by
  induction hlen : l.length using Nat.strongRecOn generalizing l with
  | ind n ih =>
    cases l with
    | nil => exact List.nodup_nil
    | cons x l =>
      rw [List.eraseDups_cons, List.nodup_cons]
      refine ⟨?_, ih _ ?_ _ rfl⟩
      · rw [List.mem_eraseDups]
        simp
      · rw [← hlen]
        exact Nat.lt_succ_of_le (List.length_filter_le _ _)

/-- The value that a name had last. -/
def lastValue (pairs : Form) (name : String) : String := (pairs.reverse.lookup name).getD ""

theorem lastValue_snoc (pairs : Form) (key value : String) :
    lastValue (pairs ++ [(key, value)]) = fun name => if name = key then value else lastValue pairs name := by
  funext name
  unfold lastValue
  rw [List.reverse_append, List.reverse_singleton, List.singleton_append, List.lookup_cons]
  by_cases h : name = key
  · rw [if_pos h, beq_iff_eq.mpr h]
    rfl
  · rw [if_neg h, beq_eq_false_iff_ne.mpr h]

/-- One more pair. -/
theorem restrict_snoc (pairs : Form) (key value : String) :
    Form.restrict (pairs ++ [(key, value)]) = (Form.restrict pairs).insert key value := by
  show filled (lastValue (pairs ++ [(key, value)])) _ = (filled (lastValue pairs) _).insert key value
  have hnames : ((pairs ++ [(key, value)]).map Prod.fst).eraseDups = if key ∈ pairs.map Prod.fst then (pairs.map Prod.fst).eraseDups
      else (pairs.map Prod.fst).eraseDups ++ [key] := by
    rw [List.map_append, List.eraseDups_append]
    split
    next h => simp [List.removeAll, h]
    next h => simp [List.removeAll, h, List.eraseDups_cons]
  have hmem : key ∈ (pairs.map Prod.fst).eraseDups ↔ key ∈ pairs.map Prod.fst := List.mem_eraseDups
  have hnodup := nodup_eraseDups (pairs.map Prod.fst)
  rw [hnames, lastValue_snoc, Form.insert, filled_any]
  generalize (pairs.map Prod.fst).eraseDups = kept at hmem hnodup ⊢
  by_cases hkept : key ∈ kept.take formMax
  · rw [if_pos (hmem.mp (List.mem_of_mem_take hkept)), decide_eq_true hkept, if_pos rfl,
      filled_update (hnodup.sublist (List.take_sublist _ _))]
  · have hlen : (filled (lastValue pairs) (kept.take formMax)).length = min formMax kept.length := by
      rw [filled, List.length_map, List.length_take]
    rw [decide_eq_false hkept, if_neg Bool.false_ne_true, hlen]
    by_cases hroom : kept.length < formMax
    · -- there is room, so that all names are kept and this one is new
      rw [List.take_of_length_le (Nat.le_of_lt hroom)] at hkept ⊢
      rw [if_neg (hmem.not.mp hkept), if_pos (by omega), List.take_of_length_le]
      · have hothers := filled_other hkept (lastValue pairs) value
        rw [← hothers, filled, filled, List.map_append, List.map_singleton, if_pos rfl]
      · rw [List.length_append, List.length_singleton]
        exact hroom
    · have hsame : (if key ∈ pairs.map Prod.fst then kept else kept ++ [key]).take formMax = kept.take formMax := by
        split
        · rfl
        · rw [List.take_append_of_le_length (Nat.not_lt.mp hroom)]
      rw [hsame, if_neg (by omega)]
      exact filled_other hkept _ _

/-- The pairs of a body one after the other. -/
theorem foldl_step (pieces : List Bytes) (form : Form) :
    pieces.foldl Form.step (some form) =
      (pieces.mapM fun pair => (urlDecode (cutPair pair).1).bind fun name =>
        (urlDecode (cutPair pair).2).map fun value => (name, value)).map fun pairs =>
          pairs.foldl (fun form p => form.insert p.1 p.2) form := by
  have hnone (pieces : List Bytes) : pieces.foldl Form.step none = none := by
    induction pieces with
    | nil => rfl
    | cons piece pieces ih => exact ih
  induction pieces generalizing form with
  | nil => rfl
  | cons piece pieces ih =>
    rw [List.foldl_cons, List.mapM_cons, Form.step, Option.bind_some, decode_eq, decode_eq]
    cases hname : urlDecode (cutPair piece).1 with
    | none => exact hnone pieces
    | some name =>
      cases hvalue : urlDecode (cutPair piece).2 with
      | none => exact hnone pieces
      | some value =>
        dsimp only
        rw [ih]
        simp only [Option.bind_some, Option.map_some, Option.bind_eq_bind, Option.pure_def]
        cases pieces.mapM fun pair => (urlDecode (cutPair pair).1).bind fun name =>
          (urlDecode (cutPair pair).2).map fun value => (name, value) with
        | none => rfl
        | some pairs => rfl

theorem foldl_insert (pairs : Form) :
    pairs.foldl (fun (form : Form) p => form.insert p.1 p.2) [] = Form.restrict pairs := by
  induction pairs using List.reverseRecOn with
  | nil => rfl
  | append_singleton pairs p ih => rw [List.foldl_append, List.foldl_cons, List.foldl_nil, ih, restrict_snoc]

end FormLemmas

open FormLemmas

/-- A body is parsed by the URL standard, up to its first names, or to nothing if one of its
pairs has no text. -/
theorem form_exact (body : Bytes) : Form.parse body = (urlencoded body).elim [] Form.restrict := by
  have hpieces : (body.splitOn 38).filter (fun pair => !pair.isEmpty) = (body.splitOn 38).filter (· ≠ []) := by
    refine List.filter_congr fun pair _ => ?_
    cases pair with
    | nil => rfl
    | cons c pair => rfl
  rw [Form.parse, hpieces, foldl_step, urlencoded]
  cases ((body.splitOn 38).filter (· ≠ [])).mapM fun pair => (urlDecode (cutPair pair).1).bind fun name =>
    (urlDecode (cutPair pair).2).map fun value => (name, value) with
  | none => rfl
  | some pairs => exact foldl_insert pairs

example : Form.parse (utf8 "a=1&b=x+y%21&a=2&c") = [("a", "2"), ("b", "x y!"), ("c", "")] := by decide +kernel

/-! ## Cookies -/

def sessionCookie : String := "__Host-omt_session"
def loginCookie : String := "__Host-omt_login"
def flashCookie : String := "__Host-omt_flash"
def cookieHeaderMax : Nat := 8191
def sessionCookieMax : Nat := 127
def flashCookieMax : Nat := 63

/-- The value in one part of a `Cookie` header, when it is of this cookie and not empty. -/
def cookiePart (name : String) (part : List Char) : Option String :=
  match splitOnce '=' (Receiver.trim part) with
  | some (key, value) => if String.ofList key = name ∧ value ≠ [] then some (String.ofList value) else none
  | none => none

/-- `cookie_value`: the first value, when it is not too long. -/
def cookieValue (header name : String) (max : Nat) : Option String :=
  ((header.toList.splitOn ';').findSome? (cookiePart name)).filter fun value => (utf8 value).length ≤ max

/-- `request_cookie`. -/
def requestCookie (req : Request) (name : String) (max : Nat) : Option String :=
  ((req.header (utf8 "cookie")).filter fun h => h.length ≤ cookieHeaderMax).bind fun h =>
    cookieValue (fromUtf8Lossy h) name max

end OmtClient.Web
