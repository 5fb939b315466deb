import OmtClient.Lib.Numeral

/-!
# Internet addresses

The texts of IPv4 and IPv6 addresses as Rust's standard library reads and writes them:
decimal octets with no leading zero, hexadecimal groups of up to four digits with one run
of zeros left out, and an IPv4 address in the place of the last two groups.

1. `parseIpv4_display`, `parseIpv6_display`: a written address reads back as itself.
2. `parseIpv4_chars`, `parseIpv6_colonless`, `display6_chars`: which characters such texts
   have.
-/

namespace OmtClient.Lib

structure Ipv4Addr where
  a : Byte
  b : Byte
  c : Byte
  d : Byte
  deriving DecidableEq, Repr

structure Ipv6Addr where
  segments : List UInt16
  eight : segments.length = 8
  deriving DecidableEq, Repr

/-! ## Reading -/

/-- `read_given_char`. -/
def readGivenChar (c : Byte) : Bytes → Option Bytes
  | [] => none
  | b :: rest => if b = c then some rest else none

def isDigitOf (radix : Nat) (b : Byte) : Bool := (toDigit radix b).isSome

/-- `read_number`: all the digits at the front, of which there may be only so many. -/
def readNumber (radix maxDigits bound : Nat) (zeroFirst : Bool) (s : Bytes) : Option (Nat × Bytes) :=
  let ds := s.takeWhile (isDigitOf radix)
  if ds = [] ∨ maxDigits < ds.length ∨ (zeroFirst = false ∧ ds.head? = some 48 ∧ 1 < ds.length) then none
  else
    match valueFrom radix 0 ds with
    | none => none
    | some v => if v ≤ bound then some (v, s.drop ds.length) else none

/-- `read_separator`: past the first item a separator comes first. -/
def readSeparator {α : Type} (sep : Byte) (index : Nat) (inner : Bytes → Option (α × Bytes)) (s : Bytes) :
    Option (α × Bytes) :=
  if 0 < index then (readGivenChar sep s).bind inner else inner s

/-- `read_ipv4_addr`. -/
def readIpv4Addr (s : Bytes) : Option (Ipv4Addr × Bytes) := do
  let (a, s) ← readSeparator 46 0 (readNumber 10 3 255 false) s
  let (b, s) ← readSeparator 46 1 (readNumber 10 3 255 false) s
  let (c, s) ← readSeparator 46 2 (readNumber 10 3 255 false) s
  let (d, s) ← readSeparator 46 3 (readNumber 10 3 255 false) s
  some (⟨UInt8.ofNat a, UInt8.ofNat b, UInt8.ofNat c, UInt8.ofNat d⟩, s)

/-- `Ipv4Addr::from_str`. -/
def parseIpv4 (s : Bytes) : Option Ipv4Addr :=
  if 15 < s.length then none
  else
    match readIpv4Addr s with
    | some (a, []) => some a
    | _ => none

def pair (hi lo : Byte) : UInt16 := UInt16.ofNat (hi.toNat * 256 + lo.toNat)

/-- `read_groups` with `k` groups left to fill: the groups, and whether the last two were an
IPv4 address. -/
def readGroups : Nat → Bytes → List UInt16 → List UInt16 × Bool × Bytes
  | 0, s, groups => (groups, false, s)
  | k + 1, s, groups =>
    match (if 1 ≤ k then readSeparator 58 groups.length readIpv4Addr s else none) with
    | some (v4, s) => (groups ++ [pair v4.a v4.b, pair v4.c v4.d], true, s)
    | none =>
      match readSeparator 58 groups.length (readNumber 16 4 65535 true) s with
      | some (g, s) => readGroups k s (groups ++ [UInt16.ofNat g])
      | none => (groups, false, s)

/-- `read_ipv6_addr`. -/
def readIpv6Addr (s : Bytes) : Option (List UInt16 × Bytes) :=
  let (head, embedded, s) := readGroups 8 s []
  if head.length = 8 then some (head, s)
  else if embedded then none
  else do
    let s ← readGivenChar 58 s
    let s ← readGivenChar 58 s
    let (tail, _, s) := readGroups (8 - (head.length + 1)) s []
    some (head ++ List.replicate (8 - head.length - tail.length) 0 ++ tail, s)

/-- `Ipv6Addr::from_str`. -/
def parseIpv6 (s : Bytes) : Option Ipv6Addr :=
  match readIpv6Addr s with
  | some (segments, []) => if h : segments.length = 8 then some ⟨segments, h⟩ else none
  | _ => none

/-! ## Writing -/

def Ipv4Addr.display (x : Ipv4Addr) : Bytes :=
  numeral 10 x.a.toNat ++ 46 :: (numeral 10 x.b.toNat ++ 46 :: (numeral 10 x.c.toNat ++ 46 :: numeral 10 x.d.toNat))

/-- A run of positions. -/
structure Run where
  start : Nat
  len : Nat
  deriving DecidableEq, Repr

/-- The longest run of zeros, the first of those: the longest so far and the one that
reaches up to position `i`. -/
def zeroRun : Nat → Run → Run → List UInt16 → Run
  | _, longest, _, [] => longest
  | i, longest, current, s :: rest =>
    if s = 0 then
      let current : Run := ⟨if current.len = 0 then i else current.start, current.len + 1⟩
      zeroRun (i + 1) (if longest.len < current.len then current else longest) current rest
    else zeroRun (i + 1) longest ⟨0, 0⟩ rest

/-- `fmt_subslice`: groups with colons between them. -/
def fmtGroups : List UInt16 → Bytes
  | [] => []
  | g :: gs => numeral 16 g.toNat ++ gs.flatMap fun g => 58 :: numeral 16 g.toNat

/-- `to_ipv4_mapped`. -/
def Ipv6Addr.toIpv4Mapped (x : Ipv6Addr) : Option Ipv4Addr :=
  match x.segments with
  | [0, 0, 0, 0, 0, 0xFFFF, g, h] =>
    some ⟨UInt8.ofNat (g.toNat / 256), UInt8.ofNat (g.toNat % 256), UInt8.ofNat (h.toNat / 256),
      UInt8.ofNat (h.toNat % 256)⟩
  | _ => none

def Ipv6Addr.display (x : Ipv6Addr) : Bytes :=
  match x.toIpv4Mapped with
  | some v4 => 58 :: 58 :: (numeral 16 0xFFFF ++ 58 :: v4.display)
  | none =>
    let zeros := zeroRun 0 ⟨0, 0⟩ ⟨0, 0⟩ x.segments
    if 1 < zeros.len then
      fmtGroups (x.segments.take zeros.start) ++ 58 :: 58 :: fmtGroups (x.segments.drop (zeros.start + zeros.len))
    else fmtGroups x.segments

/-! ## A written IPv4 address -/

namespace AddressLemmas

variable {radix : Nat} {rest : Bytes}

/-- What may follow a number. -/
def Stops (radix : Nat) (rest : Bytes) : Prop := ∀ b, rest.head? = some b → isDigitOf radix b = false

theorem takeWhile_stops (h : Stops radix rest) : rest.takeWhile (isDigitOf radix) = [] := by
  cases rest with
  | nil => rfl
  | cons b rest => exact List.takeWhile_cons_of_neg (by rw [h b rfl]; exact nofun)

theorem takeWhile_numeral (hradix : 1 < radix) (hsixteen : radix ≤ 16) (n : Nat) (h : Stops radix rest) :
    (numeral radix n ++ rest).takeWhile (isDigitOf radix) = numeral radix n := by
  have hall : ∀ b ∈ numeral radix n, isDigitOf radix b = true := by
    intro b hb
    obtain ⟨d, hd, rfl⟩ := mem_numeral hradix n b hb
    rw [isDigitOf, toDigit_ofDigit hsixteen hd]
    rfl
  rw [List.takeWhile_append_of_pos hall, takeWhile_stops h, List.append_nil]

/-- A number that was written reads back. -/
theorem readNumber_numeral (hradix : 1 < radix) (hsixteen : radix ≤ 16) {maxDigits bound n : Nat}
    (hdigits : 0 < maxDigits) (hlen : n < radix ^ maxDigits) (hbound : n ≤ bound) (zeroFirst : Bool)
    (hzero : zeroFirst = true ∨ radix = 10) (h : Stops radix rest) :
    readNumber radix maxDigits bound zeroFirst (numeral radix n ++ rest) = some (n, rest) := by
  have hno : ¬ (numeral radix n = [] ∨ maxDigits < (numeral radix n).length ∨
      (zeroFirst = false ∧ (numeral radix n).head? = some 48 ∧ 1 < (numeral radix n).length)) := by
    rintro (hnil | hlong | ⟨hfalse, hhead, hmore⟩)
    · exact numeral_ne_nil hnil
    · exact absurd hlong (Nat.not_lt.mpr ((length_numeral_le hradix hdigits).mpr hlen))
    · rcases hzero with htrue | rfl
      · exact nomatch hfalse.symm.trans htrue
      · rcases Nat.eq_zero_or_pos n with rfl | hn
        · exact absurd hmore (by decide)
        · exact numeral_head hn hhead
  unfold readNumber
  rw [takeWhile_numeral hradix hsixteen n h, if_neg hno, value_numeral hradix hsixteen]
  dsimp only
  rw [if_pos hbound, List.drop_left]

theorem stops_dot (rest : Bytes) : Stops 10 (46 :: rest) := by
  intro b hb
  cases hb
  decide

/-- An octet that was written reads back. -/
theorem readOctet (x : Byte) (h : Stops 10 rest) :
    readNumber 10 3 255 false (numeral 10 x.toNat ++ rest) = some (x.toNat, rest) := by
  have hx := x.toNat_lt
  exact readNumber_numeral (by decide) (by decide) (by decide) (by omega) (by omega) _ (.inr rfl) h

theorem readIpv4Addr_display (x : Ipv4Addr) (h : Stops 10 rest) :
    readIpv4Addr (x.display ++ rest) = some (x, rest) := by
  have hnext {i : Nat} (hi : 0 < i) (y : Byte) {tail : Bytes} (ht : Stops 10 tail) :
      readSeparator 46 i (readNumber 10 3 255 false) (46 :: (numeral 10 y.toNat ++ tail)) =
        some (y.toNat, tail) := by
    rw [readSeparator, if_pos hi, readGivenChar, if_pos rfl]
    exact readOctet y ht
  have hfirst {tail : Bytes} (ht : Stops 10 tail) :
      readSeparator 46 0 (readNumber 10 3 255 false) (numeral 10 x.a.toNat ++ tail) = some (x.a.toNat, tail) :=
    readOctet x.a ht
  unfold readIpv4Addr
  simp only [Ipv4Addr.display, List.append_assoc, List.cons_append, hfirst (stops_dot _),
    Option.bind_eq_bind, Option.bind_some, hnext (show 0 < 1 by decide) _ (stops_dot _),
    hnext (show 0 < 2 by decide) _ (stops_dot _), hnext (show 0 < 3 by decide) _ h, UInt8.ofNat_toNat]

theorem length_display4 (x : Ipv4Addr) : x.display.length ≤ 15 := by
  have hone (y : Byte) : (numeral 10 y.toNat).length ≤ 3 := by
    have := y.toNat_lt
    exact (length_numeral_le (by decide) (by decide)).mpr (by omega)
  have := hone x.a
  have := hone x.b
  have := hone x.c
  have := hone x.d
  simp only [Ipv4Addr.display, List.length_append, List.length_cons]
  omega

end AddressLemmas

open AddressLemmas

/-- A written IPv4 address reads back as itself. -/
theorem parseIpv4_display (x : Ipv4Addr) : parseIpv4 x.display = some x := by
  have hread := (@readIpv4Addr_display []) x nofun
  rw [List.append_nil] at hread
  rw [parseIpv4, if_neg (Nat.not_lt.mpr (length_display4 x)), hread]

/-! ## A written IPv6 address -/

/-- Groups that each have a colon before them. -/
def colonGroups (gs : List UInt16) : Bytes := gs.flatMap fun g => 58 :: numeral 16 g.toNat

namespace AddressLemmas

variable {rest : Bytes}

/-- What the groups of an address end at: the end, or the run of zeros. -/
def GroupsEnd (rest : Bytes) : Prop := rest = [] ∨ ∃ tail, rest = 58 :: 58 :: tail

theorem stops_colon (rest : Bytes) : Stops 16 (58 :: rest) := by
  intro b hb
  cases hb
  decide

theorem stops_groups (gs : List UInt16) (h : GroupsEnd rest) : Stops 16 (colonGroups gs ++ rest) := by
  cases gs with
  | nil =>
    rcases h with rfl | ⟨tail, rfl⟩
    · exact nofun
    · exact stops_colon _
  | cons g gs => exact stops_colon _

theorem readGroup (g : UInt16) (h : Stops 16 rest) :
    readNumber 16 4 65535 true (numeral 16 g.toNat ++ rest) = some (g.toNat, rest) := by
  have hg := g.toNat_lt
  exact readNumber_numeral (by decide) (by decide) (by decide) (by omega) (by omega) _ (.inl rfl) h

theorem readNumber_stops {radix maxDigits bound : Nat} {zeroFirst : Bool} (h : Stops radix rest) :
    readNumber radix maxDigits bound zeroFirst rest = none := by
  unfold readNumber
  rw [takeWhile_stops h]
  exact if_pos (.inl rfl)

theorem readNumber_suffix {radix maxDigits bound : Nat} {zeroFirst : Bool} {s s' : Bytes} {v : Nat}
    (h : readNumber radix maxDigits bound zeroFirst s = some (v, s')) : s' <:+ s := by
  unfold readNumber at h
  dsimp only at h
  split at h
  · cases h
  split at h
  · cases h
  split at h
  · cases h
    exact List.drop_suffix _ _
  · cases h

/-- Without a dot there is no IPv4 address. -/
theorem readIpv4Addr_dotless {s : Bytes} (h : 46 ∉ s) : readIpv4Addr s = none := by
  unfold readIpv4Addr
  cases hfirst : readSeparator 46 0 (readNumber 10 3 255 false) s with
  | none => rfl
  | some p =>
    obtain ⟨v, s'⟩ := p
    have hsuffix : s' <:+ s := readNumber_suffix hfirst
    have hnone : readSeparator 46 1 (readNumber 10 3 255 false) s' = none := by
      rw [readSeparator, if_pos (by decide)]
      cases s' with
      | nil => rfl
      | cons b s' =>
        have hb : b ≠ 46 := fun heq => h (hsuffix.subset (heq ▸ List.mem_cons_self))
        rw [readGivenChar, if_neg hb]
        rfl
    simp only [Option.bind_eq_bind, Option.bind_some, hnone, Option.bind_none]

theorem readEmbedded_dotless {s : Bytes} (i : Nat) (h : 46 ∉ s) : readSeparator 58 i readIpv4Addr s = none := by
  unfold readSeparator
  split
  · cases s with
    | nil => rfl
    | cons b s =>
      rw [readGivenChar]
      split
      · exact readIpv4Addr_dotless fun hmem => h (List.mem_cons_of_mem _ hmem)
      · rfl
  · exact readIpv4Addr_dotless h

/-- A group where no IPv4 address can be read. -/
theorem readGroups_step {k : Nat} {s : Bytes} {groups : List UInt16}
    (h : readSeparator 58 groups.length readIpv4Addr s = none) :
    readGroups (k + 1) s groups =
      match readSeparator 58 groups.length (readNumber 16 4 65535 true) s with
      | some (g, s) => readGroups k s (groups ++ [UInt16.ofNat g])
      | none => (groups, false, s) := by
  have hnone : (if 1 ≤ k then readSeparator 58 groups.length readIpv4Addr s else none) = none := by
    split
    · exact h
    · rfl
  rw [readGroups, hnone]

/-- Groups after the first read back, up to where they end. -/
theorem readGroups_more (gs : List UInt16) {k : Nat} {groups : List UInt16} (hgroups : groups ≠ [])
    (hk : gs.length ≤ k) (hdot : 46 ∉ colonGroups gs ++ rest) (hend : GroupsEnd rest) :
    readGroups k (colonGroups gs ++ rest) groups = (groups ++ gs, false, rest) := by
  have hindex {l : List UInt16} (hl : l ≠ []) : 0 < l.length := List.length_pos_of_ne_nil hl
  induction gs generalizing k groups with
  | nil =>
    rw [List.append_nil]
    cases k with
    | zero => rfl
    | succ k =>
      have hnone : readSeparator 58 groups.length (readNumber 16 4 65535 true) rest = none := by
        rw [readSeparator, if_pos (hindex hgroups)]
        rcases hend with rfl | ⟨tail, rfl⟩
        · rfl
        · rw [readGivenChar, if_pos rfl, Option.bind_some]
          exact readNumber_stops (stops_colon tail)
      show readGroups (k + 1) rest groups = _
      rw [readGroups_step (s := rest) (readEmbedded_dotless _ hdot), hnone]
  | cons g gs ih =>
    cases k with
    | zero => exact absurd hk (Nat.not_succ_le_zero _)
    | succ k =>
      have hread : readSeparator 58 groups.length (readNumber 16 4 65535 true)
          (colonGroups (g :: gs) ++ rest) = some (g.toNat, colonGroups gs ++ rest) := by
        rw [readSeparator, if_pos (hindex hgroups)]
        have hsplit : colonGroups (g :: gs) ++ rest =
            58 :: (numeral 16 g.toNat ++ (colonGroups gs ++ rest)) := by
          simp only [colonGroups, List.flatMap_cons, List.cons_append, List.append_assoc]
        rw [hsplit, readGivenChar, if_pos rfl, Option.bind_some]
        exact readGroup g (stops_groups gs hend)
      have hdot' : 46 ∉ colonGroups gs ++ rest := by
        intro hmem
        refine hdot ?_
        simp only [colonGroups, List.flatMap_cons, List.cons_append, List.append_assoc, List.mem_cons,
          List.mem_append] at hmem ⊢
        exact .inr (.inr hmem)
      rw [readGroups_step (readEmbedded_dotless _ hdot), hread]
      dsimp only
      rw [UInt16.ofNat_toNat, @ih _ (groups ++ [g]) (by simp) (Nat.le_of_succ_le_succ hk) hdot',
        List.append_assoc]
      rfl

/-- Groups read back from the front of a text. -/
theorem readGroups_fmtGroups (gs : List UInt16) {k : Nat} (hk : gs.length ≤ k)
    (hdot : 46 ∉ fmtGroups gs ++ rest) (hend : GroupsEnd rest) :
    readGroups k (fmtGroups gs ++ rest) [] = (gs, false, rest) := by
  cases k with
  | zero =>
    cases List.length_eq_zero_iff.mp (Nat.le_zero.mp hk)
    rfl
  | succ k =>
    rw [readGroups_step (readEmbedded_dotless _ hdot)]
    cases gs with
    | nil =>
      have hnone : readSeparator 58 0 (readNumber 16 4 65535 true) rest = none :=
        readNumber_stops (stops_groups [] hend)
      show (match readSeparator 58 0 (readNumber 16 4 65535 true) rest with
        | some (g, s) => readGroups k s ([] ++ [UInt16.ofNat g])
        | none => ([], false, rest)) = _
      rw [hnone]
    | cons g gs =>
      have hsplit : fmtGroups (g :: gs) ++ rest = numeral 16 g.toNat ++ (colonGroups gs ++ rest) := by
        rw [fmtGroups, List.append_assoc]
        rfl
      have hread : readSeparator 58 ([] : List UInt16).length (readNumber 16 4 65535 true)
          (fmtGroups (g :: gs) ++ rest) = some (g.toNat, colonGroups gs ++ rest) := by
        rw [hsplit]
        exact readGroup g (stops_groups gs hend)
      rw [hread]
      dsimp only
      have hdot' : 46 ∉ colonGroups gs ++ rest := by
        intro hmem
        rw [hsplit] at hdot
        exact hdot (List.mem_append_right _ hmem)
      rw [UInt16.ofNat_toNat, readGroups_more gs (by simp) (Nat.le_of_succ_le_succ hk) hdot' hend]
      rfl

/-- The positions of a run hold zeros. -/
def Zeros (l : List UInt16) (run : Run) : Prop := ∀ j, run.start ≤ j → j < run.start + run.len → l[j]? = some 0

theorem zeros_zeroRun (pre rest : List UInt16) {longest current : Run} (hlongest : Zeros (pre ++ rest) longest)
    (hcurrent : current.len = 0 ∨ (Zeros (pre ++ rest) current ∧ current.start + current.len = pre.length)) :
    Zeros (pre ++ rest) (zeroRun pre.length longest current rest) := by
  induction rest generalizing pre longest current with
  | nil => exact hlongest
  | cons s rest ih =>
    have hat : (pre ++ s :: rest)[pre.length]? = some s := by simp
    have hcons : pre ++ s :: rest = (pre ++ [s]) ++ rest := by simp
    have hlen : pre.length + 1 = (pre ++ [s]).length := by simp
    rw [zeroRun]
    split
    · next hs =>
      subst hs
      -- the run that reaches up to here grows by one
      have hgrown : Zeros (pre ++ 0 :: rest) ⟨if current.len = 0 then pre.length else current.start,
          current.len + 1⟩ ∧ (if current.len = 0 then pre.length else current.start) + (current.len + 1) =
            pre.length + 1 := by
        rcases hcurrent with hzero | ⟨hzeros, hreach⟩
        · rw [if_pos hzero, hzero]
          refine ⟨fun j hj hj' => ?_, rfl⟩
          have : j = pre.length := by
            dsimp only at hj hj'
            omega
          rw [this, hat]
        · split
          · next hzero =>
            refine ⟨fun j hj hj' => ?_, by omega⟩
            have : j = pre.length := by
              dsimp only at hj hj'
              omega
            rw [this, hat]
          · refine ⟨fun j hj hj' => ?_, by omega⟩
            dsimp only at hj hj'
            rcases Nat.lt_or_ge j pre.length with hlt | hge
            · exact hzeros j hj (by omega)
            · have : j = pre.length := by omega
              rw [this, hat]
      dsimp only
      rw [hlen, hcons]
      rw [hcons] at hlongest hgrown
      refine ih (pre ++ [0]) ?_ (.inr ⟨hgrown.1, by rw [← hlen]; exact hgrown.2⟩)
      split
      · exact hgrown.1
      · exact hlongest
    · rw [hlen, hcons]
      rw [hcons] at hlongest
      exact ih (pre ++ [s]) hlongest (.inl rfl)

/-- A run of zeros, written out. -/
theorem split_zeros {l : List UInt16} {run : Run} (h : Zeros l run) (hlen : 0 < run.len) :
    l = l.take run.start ++ List.replicate run.len 0 ++ l.drop (run.start + run.len) ∧
      run.start + run.len ≤ l.length := by
  have hbound : run.start + run.len ≤ l.length := by
    have hlast := h (run.start + run.len - 1) (by omega) (by omega)
    obtain ⟨hlt, _⟩ := List.getElem?_eq_some_iff.mp hlast
    omega
  refine ⟨?_, hbound⟩
  have hmid : (l.drop run.start).take run.len = List.replicate run.len 0 := by
    rw [List.eq_replicate_iff]
    refine ⟨by rw [List.length_take, List.length_drop]; omega, fun x hx => ?_⟩
    obtain ⟨j, hj, hget⟩ := List.getElem_of_mem hx
    rw [List.length_take, List.length_drop] at hj
    have hz := h (run.start + j) (by omega) (by omega)
    rw [List.getElem_take, List.getElem_drop] at hget
    rw [List.getElem?_eq_getElem (by omega), hget] at hz
    exact Option.some.inj hz
  rw [← hmid, ← List.drop_drop, List.append_assoc, List.take_append_drop, List.take_append_drop]

theorem not_dot_numeral (n : Nat) : 46 ∉ numeral 16 n := by
  intro hmem
  obtain ⟨d, hd, heq⟩ := mem_numeral (by decide) n 46 hmem
  have hall : ∀ d, d < 16 → (46 : Byte) ≠ ofDigit d := by decide
  exact hall d hd heq

theorem not_dot_fmtGroups (gs : List UInt16) : 46 ∉ fmtGroups gs := by
  cases gs with
  | nil => exact List.not_mem_nil
  | cons g gs =>
    rw [fmtGroups, List.mem_append, not_or]
    refine ⟨not_dot_numeral _, fun hmem => ?_⟩
    obtain ⟨x, _, hx⟩ := List.mem_flatMap.mp hmem
    rcases List.mem_cons.mp hx with heq | hx
    · exact absurd heq (by decide)
    · exact not_dot_numeral _ hx

/-- The groups of an address, with a run of zeros left out. -/
theorem readIpv6Addr_compressed (front back : List UInt16) (hlen : front.length + back.length ≤ 7) :
    readIpv6Addr (fmtGroups front ++ 58 :: 58 :: fmtGroups back) =
      some (front ++ List.replicate (8 - front.length - back.length) 0 ++ back, []) := by
  have hdot : 46 ∉ fmtGroups front ++ 58 :: 58 :: fmtGroups back := by
    have hfront := not_dot_fmtGroups front
    have hback := not_dot_fmtGroups back
    simp only [List.mem_append, List.mem_cons, not_or]
    exact ⟨hfront, by decide, by decide, hback⟩
  have hhead := readGroups_fmtGroups front (k := 8) (by omega) hdot (.inr ⟨_, rfl⟩)
  have htail := (@readGroups_fmtGroups [] back (8 - (front.length + 1))) (by omega)
    (by rw [List.append_nil]; exact not_dot_fmtGroups back) (.inl rfl)
  rw [List.append_nil] at htail
  unfold readIpv6Addr
  rw [hhead]
  dsimp only
  rw [if_neg (by omega), if_neg nofun, readGivenChar, if_pos rfl, Option.bind_eq_bind, Option.bind_some,
    readGivenChar, if_pos rfl, Option.bind_some, htail]

/-- An IPv4-mapped address. -/
theorem readIpv6Addr_mapped (v4 : Ipv4Addr) :
    readIpv6Addr (58 :: 58 :: (numeral 16 0xFFFF ++ 58 :: v4.display)) =
      some ([0, 0, 0, 0, 0, 0xFFFF, pair v4.a v4.b, pair v4.c v4.d], []) := by
  have hnumber : readNumber 16 4 65535 true (numeral 16 0xFFFF ++ 58 :: v4.display) =
      some (0xFFFF, 58 :: v4.display) := readGroup 0xFFFF (stops_colon _)
  have hv4 := (@readIpv4Addr_display []) v4 nofun
  rw [List.append_nil] at hv4
  have hletters : Stops 10 (numeral 16 0xFFFF ++ 58 :: v4.display) := by
    intro b hb
    cases hb
    decide
  have hcolons (s : Bytes) : Stops 10 (58 :: s) := by
    intro b hb
    cases hb
    decide
  have hnone {s : Bytes} (h : Stops 10 s) : readIpv4Addr s = none := by
    unfold readIpv4Addr
    rw [readSeparator, if_neg (by decide), readNumber_stops h]
    rfl
  have hhead : readGroups 8 (58 :: 58 :: (numeral 16 0xFFFF ++ 58 :: v4.display)) [] =
      ([], false, 58 :: 58 :: (numeral 16 0xFFFF ++ 58 :: v4.display)) := by
    have hno : readSeparator 58 ([] : List UInt16).length (readNumber 16 4 65535 true)
        (58 :: 58 :: (numeral 16 0xFFFF ++ 58 :: v4.display)) = none :=
      (@readNumber_stops (58 :: 58 :: (numeral 16 0xFFFF ++ 58 :: v4.display)) _ 4 65535 true) (stops_colon _)
    rw [(@readGroups_step _ _ []) (hnone (hcolons _)), hno]
  have htail : readGroups 7 (numeral 16 0xFFFF ++ 58 :: v4.display) [] =
      ([0xFFFF, pair v4.a v4.b, pair v4.c v4.d], true, []) := by
    have hyes : readSeparator 58 ([] : List UInt16).length (readNumber 16 4 65535 true)
        (numeral 16 0xFFFF ++ 58 :: v4.display) = some (0xFFFF, 58 :: v4.display) := hnumber
    have hembedded : readSeparator 58 ([0xFFFF] : List UInt16).length readIpv4Addr (58 :: v4.display) =
        some (v4, []) := hv4
    rw [(@readGroups_step _ _ []) (hnone hletters), hyes]
    show readGroups 6 (58 :: v4.display) [0xFFFF] = _
    rw [readGroups, if_pos (by decide), hembedded]
    rfl
  unfold readIpv6Addr
  rw [hhead]
  dsimp only
  rw [if_neg (by decide), if_neg nofun, readGivenChar, if_pos rfl, Option.bind_eq_bind, Option.bind_some,
    readGivenChar, if_pos rfl, Option.bind_some]
  show some (_ ++ List.replicate (8 - 0 - (readGroups 7 _ []).1.length) 0 ++ (readGroups 7 _ []).1,
    (readGroups 7 _ []).2.2) = _
  rw [htail]
  rfl

theorem pair_halves (g : UInt16) : pair (UInt8.ofNat (g.toNat / 256)) (UInt8.ofNat (g.toNat % 256)) = g := by
  have hg := g.toNat_lt
  rw [pair, UInt8.toNat_ofNat_of_lt' (show g.toNat / 256 < 256 by omega),
    UInt8.toNat_ofNat_of_lt' (show g.toNat % 256 < 256 by omega), Nat.div_add_mod', UInt16.ofNat_toNat]

/-- Only a mapped address is written with an IPv4 address. -/
theorem toIpv4Mapped_eq_some {x : Ipv6Addr} {v4 : Ipv4Addr} (h : x.toIpv4Mapped = some v4) :
    x.segments = [0, 0, 0, 0, 0, 0xFFFF, pair v4.a v4.b, pair v4.c v4.d] := by
  unfold Ipv6Addr.toIpv4Mapped at h
  split at h
  · next g k hsegments =>
    cases h
    rw [hsegments, pair_halves, pair_halves]
  · cases h

end AddressLemmas

/-- A written IPv6 address reads back as itself. -/
theorem parseIpv6_display (x : Ipv6Addr) : parseIpv6 x.display = some x := by
  have hread : readIpv6Addr x.display = some (x.segments, []) := by
    unfold Ipv6Addr.display
    split
    · next v4 hmapped =>
      rw [readIpv6Addr_mapped v4, toIpv4Mapped_eq_some hmapped]
    · have hzeros : Zeros x.segments (zeroRun 0 ⟨0, 0⟩ ⟨0, 0⟩ x.segments) :=
        zeros_zeroRun [] x.segments (fun j _ hj => absurd hj (Nat.not_lt_zero _)) (.inl rfl)
      generalize zeroRun 0 ⟨0, 0⟩ ⟨0, 0⟩ x.segments = run at hzeros
      dsimp only
      have height := x.eight
      split
      · next hmany =>
        obtain ⟨hsplit, hbound⟩ := split_zeros hzeros (by omega)
        have hfront : (x.segments.take run.start).length = run.start := List.length_take_of_le (by omega)
        have hback : (x.segments.drop (run.start + run.len)).length = 8 - (run.start + run.len) := by
          rw [List.length_drop, height]
        rw [readIpv6Addr_compressed _ _ (by omega), hfront, hback]
        have hmid : 8 - run.start - (8 - (run.start + run.len)) = run.len := by omega
        rw [hmid, ← hsplit]
      · -- all eight groups
        have hdot : 46 ∉ fmtGroups x.segments ++ [] := by
          rw [List.append_nil]
          exact not_dot_fmtGroups _
        have hall := readGroups_fmtGroups x.segments (k := 8) (Nat.le_of_eq height) hdot (.inl rfl)
        rw [List.append_nil] at hall
        unfold readIpv6Addr
        rw [hall]
        exact if_pos height
  rw [parseIpv6, hread]
  exact dif_pos x.eight

/-! ## The characters of an address -/

namespace AddressLemmas

theorem readNumber_split {radix maxDigits bound : Nat} {zeroFirst : Bool} {s s' : Bytes} {v : Nat}
    (h : readNumber radix maxDigits bound zeroFirst s = some (v, s')) :
    ∃ ds, s = ds ++ s' ∧ ∀ b ∈ ds, isDigitOf radix b = true := by
  unfold readNumber at h
  dsimp only at h
  split at h
  · cases h
  split at h
  · cases h
  split at h
  · cases h
    refine ⟨s.takeWhile (isDigitOf radix), ?_, List.all_eq_true.mp List.all_takeWhile⟩
    have hstarts := List.takeWhile_prefix (p := isDigitOf radix) (l := s)
    exact (List.prefix_iff_eq_append.mp hstarts).symm
  · cases h

/-- A digit or a dot. -/
def Dotted (b : Byte) : Prop := isDigitOf 10 b = true ∨ b = 46

theorem readOctet_chars {i : Nat} {s s' : Bytes} {v : Nat}
    (h : readSeparator 46 i (readNumber 10 3 255 false) s = some (v, s')) :
    ∃ ds, s = ds ++ s' ∧ ∀ b ∈ ds, Dotted b := by
  unfold readSeparator at h
  split at h
  · cases s with
    | nil => cases h
    | cons b s =>
      rw [readGivenChar] at h
      split at h
      · next hb =>
        obtain ⟨ds, rfl, hds⟩ := readNumber_split h
        refine ⟨b :: ds, rfl, fun c hc => ?_⟩
        rcases List.mem_cons.mp hc with rfl | hc
        · exact .inr hb
        · exact .inl (hds c hc)
      · cases h
  · obtain ⟨ds, hs, hds⟩ := readNumber_split h
    exact ⟨ds, hs, fun c hc => .inl (hds c hc)⟩

theorem readIpv4Addr_chars {s s' : Bytes} {x : Ipv4Addr} (h : readIpv4Addr s = some (x, s')) :
    ∃ ds, s = ds ++ s' ∧ ∀ b ∈ ds, Dotted b := by
  unfold readIpv4Addr at h
  simp only [Option.bind_eq_bind] at h
  obtain ⟨⟨a, s1⟩, h1, h⟩ := Option.bind_eq_some_iff.mp h
  obtain ⟨⟨b, s2⟩, h2, h⟩ := Option.bind_eq_some_iff.mp h
  obtain ⟨⟨c, s3⟩, h3, h⟩ := Option.bind_eq_some_iff.mp h
  obtain ⟨⟨d, s4⟩, h4, h⟩ := Option.bind_eq_some_iff.mp h
  cases h
  obtain ⟨d1, rfl, hd1⟩ := readOctet_chars h1
  obtain ⟨d2, rfl, hd2⟩ := readOctet_chars h2
  obtain ⟨d3, rfl, hd3⟩ := readOctet_chars h3
  obtain ⟨d4, rfl, hd4⟩ := readOctet_chars h4
  refine ⟨d1 ++ (d2 ++ (d3 ++ d4)), by simp only [List.append_assoc], fun b hb => ?_⟩
  simp only [List.mem_append] at hb
  rcases hb with hb | hb | hb | hb
  · exact hd1 b hb
  · exact hd2 b hb
  · exact hd3 b hb
  · exact hd4 b hb

end AddressLemmas

/-- An IPv4 address has digits and dots only. -/
theorem parseIpv4_chars {s : Bytes} {x : Ipv4Addr} (h : parseIpv4 s = some x) : ∀ b ∈ s, Dotted b := by
  unfold parseIpv4 at h
  split at h
  · cases h
  split at h
  · next hread =>
    cases h
    obtain ⟨ds, rfl, hds⟩ := readIpv4Addr_chars hread
    rw [List.append_nil]
    exact hds
  · cases h

/-- An IPv6 address has a colon. -/
theorem parseIpv6_colonless {s : Bytes} (h : 58 ∉ s) : parseIpv6 s = none := by
  have hsep {α : Type} {i : Nat} (hi : 0 < i) {s : Bytes} (hs : 58 ∉ s) (inner : Bytes → Option (α × Bytes)) :
      readSeparator 58 i inner s = none := by
    rw [readSeparator, if_pos hi]
    cases s with
    | nil => rfl
    | cons b s =>
      have hb : b ≠ 58 := fun heq => hs (heq ▸ List.mem_cons_self)
      rw [readGivenChar, if_neg hb]
      rfl
  have hgiven {s : Bytes} (hs : 58 ∉ s) : readGivenChar 58 s = none := by
    cases s with
    | nil => rfl
    | cons b s =>
      have hb : b ≠ 58 := fun heq => hs (heq ▸ List.mem_cons_self)
      exact if_neg hb
  have hread : readIpv6Addr s = none := by
    unfold readIpv6Addr
    cases hv4 : readSeparator 58 ([] : List UInt16).length readIpv4Addr s with
    | some p =>
      -- an IPv4 address alone
      rw [readGroups, if_pos (by decide), hv4]
      rfl
    | none =>
      rw [readGroups_step hv4]
      cases hnumber : readSeparator 58 ([] : List UInt16).length (readNumber 16 4 65535 true) s with
      | none =>
        dsimp only
        rw [if_neg (by decide), if_neg nofun, hgiven h]
        rfl
      | some p =>
        obtain ⟨g, s'⟩ := p
        obtain ⟨ds, rfl, _⟩ := readNumber_split hnumber
        have hs' : 58 ∉ s' := fun hmem => h (List.mem_append_right _ hmem)
        have hone : readGroups 7 s' ([] ++ [UInt16.ofNat g]) = ([UInt16.ofNat g], false, s') := by
          have hpos : 0 < ([] ++ [UInt16.ofNat g]).length := Nat.one_pos
          rw [readGroups_step (hsep hpos hs' _), hsep hpos hs' _]
          rfl
        dsimp only
        rw [hone]
        rw [if_neg (by simp), if_neg nofun, hgiven hs']
        rfl
  rw [parseIpv6, hread]

namespace AddressLemmas

/-- A hexadecimal digit, a colon or a dot. -/
def Grouped (b : Byte) : Prop := isDigitOf 16 b = true ∨ b = 58 ∨ b = 46

theorem grouped_numeral (n : Nat) : ∀ b ∈ numeral 16 n, Grouped b := by
  intro b hb
  obtain ⟨d, hd, rfl⟩ := mem_numeral (by decide) n b hb
  have hall : ∀ d, d < 16 → isDigitOf 16 (ofDigit d) = true := by decide
  exact .inl (hall d hd)

theorem grouped_fmtGroups (gs : List UInt16) : ∀ b ∈ fmtGroups gs, Grouped b := by
  cases gs with
  | nil => exact fun _ h => nomatch h
  | cons g gs =>
    intro b hb
    rcases List.mem_append.mp hb with hb | hb
    · exact grouped_numeral _ b hb
    · obtain ⟨x, _, hx⟩ := List.mem_flatMap.mp hb
      rcases List.mem_cons.mp hx with rfl | hx
      · exact .inr (.inl rfl)
      · exact grouped_numeral _ b hx

theorem length_fmtGroups (gs : List UInt16) : (fmtGroups gs).length ≤ 5 * gs.length := by
  have hone (g : UInt16) : (numeral 16 g.toNat).length ≤ 4 := by
    have := g.toNat_lt
    exact (length_numeral_le (by decide) (by decide)).mpr (by omega)
  have hmore (gs : List UInt16) : (gs.flatMap fun g => 58 :: numeral 16 g.toNat).length ≤ 5 * gs.length := by
    induction gs with
    | nil => exact Nat.le_refl _
    | cons g gs ih =>
      have := hone g
      rw [List.flatMap_cons, List.length_append, List.length_cons, List.length_cons]
      omega
  cases gs with
  | nil => exact Nat.le_refl _
  | cons g gs =>
    have := hone g
    have := hmore gs
    rw [fmtGroups, List.length_append, List.length_cons]
    omega

end AddressLemmas

/-- A written IPv6 address has hexadecimal digits, colons and dots only. -/
theorem display6_chars (x : Ipv6Addr) : ∀ b ∈ x.display, Grouped b := by
  have hdigit : ∀ b : Byte, isDigitOf 10 b = true → isDigitOf 16 b = true := by
    have hall : ∀ n, n < 256 → isDigitOf 10 (UInt8.ofNat n) = true → isDigitOf 16 (UInt8.ofNat n) = true := by
      decide +kernel
    intro b
    have := hall b.toNat b.toNat_lt
    rwa [UInt8.ofNat_toNat] at this
  intro b hb
  unfold Ipv6Addr.display at hb
  split at hb
  · next v4 _ =>
    simp only [List.mem_cons, List.mem_append] at hb
    rcases hb with rfl | rfl | hb | rfl | hb
    · exact .inr (.inl rfl)
    · exact .inr (.inl rfl)
    · exact grouped_numeral _ b hb
    · exact .inr (.inl rfl)
    · rcases parseIpv4_chars (parseIpv4_display v4) b hb with h | h
      · exact .inl (hdigit b h)
      · exact .inr (.inr h)
  · dsimp only at hb
    split at hb
    · simp only [List.mem_cons, List.mem_append] at hb
      rcases hb with hb | rfl | rfl | hb
      · exact grouped_fmtGroups _ b hb
      · exact .inr (.inl rfl)
      · exact .inr (.inl rfl)
      · exact grouped_fmtGroups _ b hb
    · exact grouped_fmtGroups _ b hb

theorem length_display6 (x : Ipv6Addr) : x.display.length ≤ 82 := by
  have hpart (gs : List UInt16) (h : gs.length ≤ 8) : (fmtGroups gs).length ≤ 40 :=
    Nat.le_trans (length_fmtGroups gs) (by omega)
  have height := x.eight
  unfold Ipv6Addr.display
  split
  · next v4 _ =>
    have := length_display4 v4
    have hffff : (numeral 16 0xFFFF).length = 4 := by decide
    simp only [List.length_cons, List.length_append, hffff]
    omega
  · dsimp only
    split
    · generalize zeroRun 0 ⟨0, 0⟩ ⟨0, 0⟩ x.segments = run
      have := hpart (x.segments.take run.start) (by rw [List.length_take]; omega)
      have := hpart (x.segments.drop (run.start + run.len)) (by rw [List.length_drop]; omega)
      simp only [List.length_cons, List.length_append]
      omega
    · exact Nat.le_trans (hpart _ (Nat.le_of_eq height)) (by decide)

end OmtClient.Lib
