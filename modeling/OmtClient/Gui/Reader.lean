import OmtClient.Gui.Http

/-!
# The request reader of the deployer

`read_request` of `crates/rpi-omt-deploy-gui/src/http.rs`, for every way in which a stream gives out
its bytes. A head may be read with three bytes more than its ceiling, which is looked at before the
rest of them has come.

1. `step_inv`, `run_inv`: what is read by a reader that is not done.
2. `read_agrees`: when the splits make no difference.
3. `straddling_differs`: a head whose blank line straddles the ceiling.
-/

namespace OmtClient.Gui.Http

open OmtClient.Lib
open OmtClient.Web.Http (maxHeaderBytes blankLine named fieldValue)
open OmtClient.Web.Http.HeadsLemmas (fits_iff LineOk bytes_lines)
open HttpLemmas

def maxBodyBytes : Nat := 64 * 1024

/-- The length of `chunk`. -/
def chunkBytes : Nat := 4096

/-- A read is interrupted, or gives some of the bytes that are left, one at least. -/
inductive Read
  | interrupted
  | upTo (more : Nat)
  deriving DecidableEq

/-- Where the reader is. -/
inductive Phase
  | head (data : Bytes)
  | body (head : Bytes) (r : Request) (length : Nat) (body : Bytes)
  | done (result : Except Nat (Request × Bytes))

/-- The condition of the loop over the body. -/
def bodyTurn (head : Bytes) (r : Request) (length : Nat) (body : Bytes) : Phase :=
  if body.length < length then .body head r length body else .done (.ok (r, body))

/-- A turn of the loop over the head up to its read, and what follows the loop. -/
def headTurn (data : Bytes) : Phase :=
  match findSub blankLine data with
  | some stop =>
    match parseHead (data.take stop) with
    | .error status => .done (.error status)
    | .ok (r, length) =>
      if maxBodyBytes < length then .done (.error 413)
      else if length < (data.drop (stop + 4)).length then .done (.error 400)
      else bodyTurn (data.take (stop + 4)) r length (data.drop (stop + 4))
  | none => if maxHeaderBytes ≤ data.length then .done (.error 431) else .head data

structure Reader where
  phase : Phase
  /-- What the stream has still to give. -/
  rest : Bytes
  /-- The most bytes that were held so far. -/
  peak : Nat

def Reader.start (bytes : Bytes) : Reader := ⟨headTurn [], bytes, 0⟩

/-- One read, and the turn after it. -/
def Reader.step (c : Reader) : Read → Reader
  | .interrupted => c
  | .upTo more =>
    match c.phase with
    | .head data =>
      let k := min (more + 1) (min (maxHeaderBytes + 3 - data.length) chunkBytes)
      if c.rest = [] then { c with phase := .done (.error 400) }
      else ⟨headTurn (data ++ c.rest.take k), c.rest.drop k, max c.peak (data ++ c.rest.take k).length⟩
    | .body head r length body =>
      let k := min (more + 1) (min (length - body.length) chunkBytes)
      if c.rest = [] then { c with phase := .done (.error 400) }
      else ⟨bodyTurn head r length (body ++ c.rest.take k), c.rest.drop k, max c.peak (head ++ (body ++ c.rest.take k)).length⟩
    | .done _ => c

/-- `read_request` of a stream that is read in this way, as far as the reads go. -/
def readRequest (bytes : Bytes) (reads : List Read) : Reader := reads.foldl Reader.step (.start bytes)

/-! ## What is asked -/

/-- One head, up to its blank line, and the body that it declares. -/
structure OneRequest (bytes : Bytes) (stop : Nat) : Prop where
  head : findSub blankLine bytes = some stop
  body : ∀ r length, parseHead (bytes.take stop) = .ok (r, length) → bytes.length = stop + 4 + length

/-- The reader returns this. -/
def Returns (bytes : Bytes) (reads : List Read) (result : Except Nat (Request × Bytes)) : Prop :=
  (readRequest bytes reads).phase = .done result

/-- How many reads are not interrupted. -/
def given (reads : List Read) : Nat := reads.countP (· ≠ .interrupted)

/-- The splits make no difference, the ceilings are kept, and what is within them is accepted. -/
structure Steady (bytes : Bytes) (stop : Nat) : Prop where
  returns : ∀ reads, bytes.length < given reads → ∃ result, Returns bytes reads result
  same : ∀ reads reads' result result', Returns bytes reads result → Returns bytes reads' result' → result = result'
  held : ∀ reads, (readRequest bytes reads).peak ≤ maxHeaderBytes + maxBodyBytes
  accepts : ∀ r length, stop + 4 ≤ maxHeaderBytes → length ≤ maxBodyBytes → parseHead (bytes.take stop) = .ok (r, length) →
    ∀ reads result, Returns bytes reads result → result = .ok (r, bytes.drop (stop + 4))

/-- The answer to a head that is found. -/
def verdict (bytes : Bytes) (stop : Nat) : Except Nat (Request × Bytes) :=
  match parseHead (bytes.take stop) with
  | .error status => .error status
  | .ok (r, length) => if maxBodyBytes < length then .error 413 else .ok (r, bytes.drop (stop + 4))

namespace ReaderLemmas

variable {bytes data rest : Bytes} {stop : Nat} {c : Reader}

/-! ### What is kept -/

/-- The head was found. -/
inductive Found (bytes : Bytes) (stop : Nat) (rest : Bytes) : Phase → Prop
  | body {head : Bytes} {r : Request} {length : Nat} {body : Bytes} (hsplit : bytes = head ++ (body ++ rest))
      (hhead : head.length = stop + 4) (hparse : parseHead (bytes.take stop) = .ok (r, length)) (hfits : length ≤ maxBodyBytes)
      (hmore : body.length < length) : Found bytes stop rest (.body head r length body)
  | done : Found bytes stop rest (.done (verdict bytes stop))

/-- What a reader has that is in the head, or behind it. -/
inductive At (bytes : Bytes) (stop : Nat) (rest : Bytes) : Phase → Prop
  | head {data : Bytes} (hsplit : bytes = data ++ rest) (hnone : findSub blankLine data = none)
      (hshort : data.length < maxHeaderBytes) : At bytes stop rest (.head data)
  | found {phase : Phase} (hstop : stop + 4 ≤ maxHeaderBytes + 3) (h : Found bytes stop rest phase) : At bytes stop rest phase
  | long (hlong : maxHeaderBytes < stop + 4) : At bytes stop rest (.done (.error 431))

/-- What may be held. -/
def Held (bytes : Bytes) (stop peak : Nat) : Prop :=
  peak ≤ maxHeaderBytes + 3 ∨ ∃ r length, parseHead (bytes.take stop) = .ok (r, length) ∧ length ≤ maxBodyBytes ∧
    stop + 4 ≤ maxHeaderBytes + 3 ∧ peak ≤ stop + 4 + length

structure Inv (bytes : Bytes) (stop : Nat) (c : Reader) : Prop where
  at_ : At bytes stop c.rest c.phase
  held : Held bytes stop c.peak

/-- The head is found as soon as its blank line is there, and no other. -/
theorem found_iff (h : findSub blankLine bytes = some stop) (hsplit : bytes = data ++ rest) :
    (∀ k, findSub blankLine data = some k → k = stop) ∧
      (findSub blankLine data = some stop ↔ stop + 4 ≤ data.length) := by
  rw [hsplit] at h
  exact findSub_within h

theorem verdict_ok {r : Request} {length : Nat} (hparse : parseHead (bytes.take stop) = .ok (r, length)) :
    verdict bytes stop = if maxBodyBytes < length then .error 413 else .ok (r, bytes.drop (stop + 4)) := by
  rw [verdict, hparse]

theorem verdict_error {status : Nat} (hparse : parseHead (bytes.take stop) = .error status) :
    verdict bytes stop = .error status := by
  rw [verdict, hparse]

/-- The body is read up to its length. -/
theorem bodyTurn_found {head body : Bytes} {r : Request} {length : Nat} (hsplit : bytes = head ++ (body ++ rest))
    (hhead : head.length = stop + 4) (hparse : parseHead (bytes.take stop) = .ok (r, length)) (hfits : length ≤ maxBodyBytes)
    (hlen : bytes.length = stop + 4 + length) : Found bytes stop rest (bodyTurn head r length body) := by
  rw [bodyTurn]
  split
  next hmore => exact .body hsplit hhead hparse hfits hmore
  next hall =>
    have hsum := congrArg List.length hsplit
    rw [List.length_append, List.length_append] at hsum
    have hrest : rest = [] := List.eq_nil_of_length_eq_zero (by omega)
    have hbody : bytes.drop (stop + 4) = body := by
      rw [hsplit, hrest, List.append_nil, ← hhead, List.drop_left]
    have hverdict : verdict bytes stop = .ok (r, body) := by
      rw [verdict_ok hparse, if_neg (Nat.not_lt.mpr hfits), hbody]
    rw [← hverdict]
    exact .done

/-- A turn of the loop over the head. -/
theorem headTurn_at (h : OneRequest bytes stop) (hsplit : bytes = data ++ rest) (hroom : data.length ≤ maxHeaderBytes + 3) :
    At bytes stop rest (headTurn data) ∧ (stop + 4 ≤ data.length → Found bytes stop rest (headTurn data)) := by
  obtain ⟨hsame, hiff⟩ := found_iff h.head hsplit
  cases hfind : findSub blankLine data with
  | none =>
    have hmissing : ¬ stop + 4 ≤ data.length := fun hle => by
      rw [hiff.mpr hle] at hfind
      cases hfind
    refine ⟨?_, fun hle => (hmissing hle).elim⟩
    rw [headTurn, hfind]
    dsimp only
    split
    next hlarge => exact .long (by omega)
    next hshort => exact .head hsplit hfind (Nat.not_le.mp hshort)
  | some k =>
    have hk := hsame k hfind
    subst hk
    have hle := hiff.mp hfind
    suffices hfound : Found bytes k rest (headTurn data) from ⟨.found (hle.trans hroom) hfound, fun _ => hfound⟩
    have htake : data.take k = bytes.take k := by
      rw [hsplit, List.take_append_of_le_length (by omega)]
    rw [headTurn, hfind]
    dsimp only
    rw [htake]
    cases hparse : parseHead (bytes.take k) with
    | error status =>
      dsimp only
      rw [← verdict_error hparse]
      exact .done
    | ok x =>
      obtain ⟨r, length⟩ := x
      have hlen := h.body r length hparse
      dsimp only
      split
      next hlarge =>
        have hverdict : verdict bytes k = .error 413 := by rw [verdict_ok hparse, if_pos hlarge]
        rw [← hverdict]
        exact .done
      next hfits =>
        have hwhole : data.length ≤ bytes.length := by
          rw [hsplit, List.length_append]
          exact Nat.le_add_right _ _
        rw [if_neg (by rw [List.length_drop]; omega)]
        refine bodyTurn_found ?_ ?_ hparse (Nat.not_lt.mp hfits) hlen
        · rw [← List.append_assoc, List.take_append_drop, hsplit]
        · rw [List.length_take, Nat.min_eq_left hle]

theorem start_inv (h : OneRequest bytes stop) : Inv bytes stop (.start bytes) :=
  ⟨(@headTurn_at bytes [] bytes stop h rfl (Nat.zero_le _)).1, .inl (Nat.zero_le _)⟩

theorem held_max {p q : Nat} (hp : Held bytes stop p) (hq : Held bytes stop q) : Held bytes stop (max p q) := by
  rcases max_choice p q with hmax | hmax
  · rwa [hmax]
  · rwa [hmax]

/-- A body that is not complete has bytes to come. -/
theorem rest_of_body (h : OneRequest bytes stop) {head body : Bytes} {r : Request} {length : Nat}
    (hfound : Found bytes stop rest (.body head r length body)) : rest ≠ [] := by
  cases hfound with
  | body hsplit hhead hparse hfits hmore =>
    rintro rfl
    have hlen := h.body r length hparse
    have hsum := congrArg List.length hsplit
    rw [List.length_append, List.append_nil] at hsum
    omega

theorem step_found (h : OneRequest bytes stop) (hfound : Found bytes stop c.rest c.phase) (read : Read) :
    Found bytes stop (c.step read).rest (c.step read).phase := by
  obtain ⟨phase, rest, peak⟩ := c
  cases read with
  | interrupted => exact hfound
  | upTo more =>
    dsimp only at hfound
    have hbody := hfound
    cases hfound with
    | @body head r length body hsplit hhead hparse hfits hmore =>
      rw [Reader.step]
      dsimp only
      rw [if_neg (rest_of_body h hbody)]
      refine bodyTurn_found ?_ hhead hparse hfits (h.body r length hparse)
      rw [List.append_assoc, List.take_append_drop, hsplit]
    | done => exact .done

/-- A read keeps what holds of the reader. -/
theorem step_inv (h : OneRequest bytes stop) (hinv : Inv bytes stop c) (read : Read) : Inv bytes stop (c.step read) := by
  obtain ⟨phase, rest, peak⟩ := c
  obtain ⟨hat, hheld⟩ := hinv
  cases read with
  | interrupted => exact ⟨hat, hheld⟩
  | upTo more =>
    dsimp only at hat hheld
    cases hat with
    | @head data hsplit hnone hshort =>
      have hrest : rest ≠ [] := by
        rintro rfl
        rw [List.append_nil] at hsplit
        rw [← hsplit, h.head] at hnone
        cases hnone
      rw [Reader.step]
      dsimp only
      rw [if_neg hrest]
      have hroom : (data ++ rest.take (min (more + 1) (min (maxHeaderBytes + 3 - data.length) chunkBytes))).length ≤
          maxHeaderBytes + 3 := by
        rw [List.length_append, List.length_take]
        omega
      refine ⟨(headTurn_at h ?_ hroom).1, held_max hheld (.inl hroom)⟩
      rw [List.append_assoc, List.take_append_drop, hsplit]
    | found hstop hfound =>
      refine ⟨.found hstop (@step_found _ _ ⟨phase, rest, peak⟩ h hfound (.upTo more)), ?_⟩
      have hbody := hfound
      cases hfound with
      | @body head r length body hsplit hhead hparse hfits hmore =>
        rw [Reader.step]
        dsimp only
        rw [if_neg (rest_of_body h hbody)]
        refine held_max hheld (.inr ⟨r, length, hparse, hfits, hstop, ?_⟩)
        rw [List.length_append, List.length_append, List.length_take]
        omega
      | done => exact hheld
    | long hlong => exact ⟨.long hlong, hheld⟩

theorem run_inv (h : OneRequest bytes stop) (hinv : Inv bytes stop c) (reads : List Read) :
    Inv bytes stop (reads.foldl Reader.step c) := by
  induction reads generalizing c with
  | nil => exact hinv
  | cons read reads ih => exact ih (step_inv h hinv read)

/-! ### The end -/

/-- The reader is done, or has taken so many bytes. -/
def Advanced (before n : Nat) (c : Reader) : Prop := (∃ result, c.phase = .done result) ∨ c.rest.length + n ≤ before

theorem step_done {result : Except Nat (Request × Bytes)} (h : c.phase = .done result) (read : Read) : c.step read = c := by
  cases read with
  | interrupted => rfl
  | upTo more =>
    rw [Reader.step, h]

theorem run_done {result : Except Nat (Request × Bytes)} (h : c.phase = .done result) (reads : List Read) :
    reads.foldl Reader.step c = c := by
  induction reads with
  | nil => rfl
  | cons read reads ih => rw [List.foldl_cons, step_done h, ih]

theorem step_advanced (hinv : Inv bytes stop c) (more : Nat) : Advanced c.rest.length 1 (c.step (.upTo more)) := by
  obtain ⟨phase, rest, peak⟩ := c
  have htaken : ∀ room, 0 < room → rest ≠ [] → (rest.drop (min (more + 1) (min room chunkBytes))).length + 1 ≤ rest.length := by
    intro room hroom hrest
    have hpos := List.length_pos_of_ne_nil hrest
    have hchunk : 0 < chunkBytes := by decide
    rw [List.length_drop]
    omega
  rw [Reader.step]
  cases phase with
  | head data =>
    dsimp only
    split
    · exact .inl ⟨_, rfl⟩
    next hrest =>
      refine .inr (htaken _ ?_ hrest)
      have hshort : data.length < maxHeaderBytes := by
        cases hinv.at_ with
        | head _ _ hshort => exact hshort
        | found _ h => cases h
      omega
  | body head r length body =>
    dsimp only
    split
    · exact .inl ⟨_, rfl⟩
    next hrest =>
      refine .inr (htaken _ ?_ hrest)
      have hmore : body.length < length := by
        cases hinv.at_ with
        | found _ h =>
          cases h with
          | body _ _ _ _ hmore => exact hmore
      omega
  | done result => exact .inl ⟨result, rfl⟩

theorem run_advanced (h : OneRequest bytes stop) (hinv : Inv bytes stop c) (reads : List Read) :
    Advanced c.rest.length (given reads) (reads.foldl Reader.step c) := by
  induction reads generalizing c with
  | nil => exact .inr (Nat.le_refl _)
  | cons read reads ih =>
    rw [List.foldl_cons]
    cases read with
    | interrupted => exact ih hinv
    | upTo more =>
      rcases step_advanced hinv more with ⟨result, hdone⟩ | hless
      · exact .inl ⟨result, by rw [run_done hdone, hdone]⟩
      · refine (ih (step_inv h hinv (.upTo more))).imp_right fun hrest => ?_
        have hcount : given (.upTo more :: reads) = given reads + 1 := List.countP_cons_of_pos (decide_eq_true fun h => (by cases h))
        omega

/-! ### Two ways to split -/

/-- One read in the head. -/
theorem head_read {n more : Nat} (hphase : c.phase = .head (bytes.take n)) (hrest : c.rest = bytes.drop n) (hn : n < bytes.length)
    (hmore : more + 1 ≤ min (maxHeaderBytes + 3 - n) chunkBytes) :
    (c.step (.upTo more)).phase = headTurn (bytes.take (n + (more + 1))) ∧
      (c.step (.upTo more)).rest = bytes.drop (n + (more + 1)) := by
  have hlen : (bytes.take n).length = n := List.length_take_of_le (Nat.le_of_lt hn)
  have hne : bytes.drop n ≠ [] := fun hnil => absurd (List.drop_eq_nil_iff.mp hnil) (Nat.not_le.mpr hn)
  have htake : bytes.take n ++ (bytes.drop n).take (more + 1) = bytes.take (n + (more + 1)) := (List.take_add ..).symm
  rw [Reader.step, hphase]
  dsimp only
  rw [hrest, if_neg hne, hlen, Nat.min_eq_left hmore, htake, List.drop_drop]
  exact ⟨rfl, rfl⟩

/-- A head that is not there yet. -/
theorem headTurn_short (h : OneRequest bytes stop) {n : Nat} (hstop : n < stop + 4) (hmax : n < maxHeaderBytes) :
    headTurn (bytes.take n) = .head (bytes.take n) := by
  obtain ⟨hsame, hiff⟩ := @found_iff bytes (bytes.take n) (bytes.drop n) stop h.head (List.take_append_drop n bytes).symm
  have htake : (bytes.take n).length ≤ n := List.length_take_le _ _
  have hnone : findSub blankLine (bytes.take n) = none := by
    cases hfind : findSub blankLine (bytes.take n) with
    | none => rfl
    | some k =>
      rw [hsame k hfind] at hfind
      have := hiff.mp hfind
      omega
  rw [headTurn, hnone]
  dsimp only
  rw [if_neg (by omega)]

/-- Single bytes leave the reader in the head as long as the blank line is not there. -/
theorem single_reads (h : OneRequest bytes stop) {n : Nat} (hstop : n < stop + 4) (hmax : n < maxHeaderBytes) :
    (readRequest bytes (List.replicate n (.upTo 0))).phase = .head (bytes.take n) ∧
      (readRequest bytes (List.replicate n (.upTo 0))).rest = bytes.drop n := by
  have hlen : stop + 4 ≤ bytes.length := (findSub_eq_some h.head).2
  induction n with
  | zero => exact ⟨headTurn_short h hstop hmax, rfl⟩
  | succ n ih =>
    obtain ⟨hphase, hrest⟩ := ih (Nat.lt_of_succ_lt hstop) (Nat.lt_of_succ_lt hmax)
    have hroom : 0 + 1 ≤ min (maxHeaderBytes + 3 - n) chunkBytes := by
      have hchunk : chunkBytes = 4096 := rfl
      omega
    have hread := head_read hphase hrest (by omega) hroom
    rw [readRequest] at hread ⊢
    rw [List.replicate_succ', List.foldl_append, List.foldl_cons, List.foldl_nil]
    rwa [Nat.zero_add, headTurn_short h hstop hmax] at hread

/-- A read that begins where single bytes ended. -/
theorem next_read (h : OneRequest bytes stop) {n : Nat} (hstop : n < stop + 4) (hmax : n < maxHeaderBytes) (more : Nat)
    (hmore : more + 1 ≤ min (maxHeaderBytes + 3 - n) chunkBytes) :
    (readRequest bytes (List.replicate n (.upTo 0) ++ [.upTo more])).phase = headTurn (bytes.take (n + (more + 1))) ∧
      (readRequest bytes (List.replicate n (.upTo 0) ++ [.upTo more])).rest = bytes.drop (n + (more + 1)) := by
  obtain ⟨hphase, hrest⟩ := single_reads h hstop hmax
  have hlen : stop + 4 ≤ bytes.length := (findSub_eq_some h.head).2
  have hread := head_read hphase hrest (by omega) hmore
  rw [readRequest] at hread ⊢
  rwa [List.foldl_append, List.foldl_cons, List.foldl_nil]

/-- What was found is what is answered. -/
theorem run_found (h : OneRequest bytes stop) (hfound : Found bytes stop c.rest c.phase) (reads : List Read) :
    Found bytes stop (reads.foldl Reader.step c).rest (reads.foldl Reader.step c).phase := by
  induction reads generalizing c with
  | nil => exact hfound
  | cons read reads ih => exact ih (step_found h hfound read)

theorem returns_cases (h : OneRequest bytes stop) {reads : List Read} {result : Except Nat (Request × Bytes)}
    (hreturns : Returns bytes reads result) :
    (stop + 4 ≤ maxHeaderBytes + 3 ∧ result = verdict bytes stop) ∨ (maxHeaderBytes < stop + 4 ∧ result = .error 431) := by
  have hat := (run_inv h (start_inv h) reads).at_
  rw [Returns, readRequest] at hreturns
  rw [hreturns] at hat
  cases hat with
  | found hstop hfound =>
    cases hfound with
    | done => exact .inl ⟨hstop, rfl⟩
  | long hlong => exact .inr ⟨hlong, rfl⟩

/-- Enough reads that are not interrupted end the reading. -/
theorem returns_of_given (h : OneRequest bytes stop) {reads : List Read} (hreads : bytes.length < given reads) :
    ∃ result, Returns bytes reads result := by
  refine (run_advanced h (start_inv h) reads).resolve_right fun hless => ?_
  have hstart : (Reader.start bytes).rest.length = bytes.length := rfl
  omega

theorem given_replicate (n : Nat) : given (List.replicate n (.upTo 0)) = n := by
  induction n with
  | zero => rfl
  | succ n ih =>
    have hcount : given (.upTo 0 :: List.replicate n (.upTo 0)) = given (List.replicate n (.upTo 0)) + 1 :=
      List.countP_cons_of_pos (by decide)
    rw [List.replicate_succ, hcount, ih]

/-- Where the blank line straddles the ceiling, there are two answers. -/
theorem straddling_returns (h : OneRequest bytes stop) (hlow : maxHeaderBytes < stop + 4) (hhigh : stop + 4 ≤ maxHeaderBytes + 3) :
    (∃ reads, Returns bytes reads (.error 431)) ∧ ∃ reads, Returns bytes reads (verdict bytes stop) := by
  have hlen : stop + 4 ≤ bytes.length := (findSub_eq_some h.head).2
  have hmax : maxHeaderBytes = 16384 := rfl
  have hchunk : chunkBytes = 4096 := rfl
  have hlast : maxHeaderBytes - 1 < stop + 4 ∧ maxHeaderBytes - 1 < maxHeaderBytes := by omega
  constructor
  · -- a last single byte comes to the ceiling
    have hroom : 0 + 1 ≤ min (maxHeaderBytes + 3 - (maxHeaderBytes - 1)) chunkBytes := by omega
    obtain ⟨hphase, -⟩ := next_read h hlast.1 hlast.2 0 hroom
    refine ⟨_, hphase.trans ?_⟩
    have hall : maxHeaderBytes - 1 + (0 + 1) = maxHeaderBytes := by omega
    obtain ⟨hsame, hiff⟩ :=
      @found_iff bytes (bytes.take maxHeaderBytes) (bytes.drop maxHeaderBytes) stop h.head (List.take_append_drop _ bytes).symm
    have htake : (bytes.take maxHeaderBytes).length = maxHeaderBytes := List.length_take_of_le (by omega)
    have hnone : findSub blankLine (bytes.take maxHeaderBytes) = none := by
      cases hfind : findSub blankLine (bytes.take maxHeaderBytes) with
      | none => rfl
      | some k =>
        rw [hsame k hfind] at hfind
        have := hiff.mp hfind
        omega
    rw [hall, headTurn, hnone]
    dsimp only
    rw [htake, if_pos (Nat.le_refl _)]
  · -- four bytes at once come behind the blank line
    have hroom : 3 + 1 ≤ min (maxHeaderBytes + 3 - (maxHeaderBytes - 1)) chunkBytes := by omega
    obtain ⟨hphase, hrest⟩ := next_read h hlast.1 hlast.2 3 hroom
    have hall : maxHeaderBytes - 1 + (3 + 1) = maxHeaderBytes + 3 := by omega
    rw [hall] at hphase hrest
    have hroom' : (bytes.take (maxHeaderBytes + 3)).length ≤ maxHeaderBytes + 3 := List.length_take_le _ _
    have hturn := (headTurn_at h (List.take_append_drop (maxHeaderBytes + 3) bytes).symm hroom').2 (by
      rw [List.length_take]
      omega)
    rw [← hphase, ← hrest] at hturn
    have hfound := run_found h hturn (List.replicate (bytes.length + 1) (.upTo 0))
    have hgiven : bytes.length < given (List.replicate (maxHeaderBytes - 1) (.upTo 0) ++ [.upTo 3] ++
        List.replicate (bytes.length + 1) (.upTo 0)) := by
      have hcount := given_replicate (bytes.length + 1)
      rw [given] at hcount
      rw [given, List.countP_append, hcount]
      omega
    obtain ⟨result, hreturns⟩ := returns_of_given h hgiven
    refine ⟨_, hreturns.trans ?_⟩
    rw [Returns, readRequest, List.foldl_append] at hreturns
    rw [readRequest, hreturns] at hfound
    cases hfound with
    | done => rfl

end ReaderLemmas

open ReaderLemmas

/-- The splits make no difference, unless the blank line behind the head straddles the ceiling and the
head is not refused for its length in any case. -/
theorem read_agrees (bytes : Bytes) (stop : Nat) (h : OneRequest bytes stop) :
    Steady bytes stop ↔ stop + 4 ≤ maxHeaderBytes ∨ maxHeaderBytes + 3 < stop + 4 ∨
      parseHead (bytes.take stop) = .error 431 := by
  constructor
  · intro hsteady
    by_contra hcondition
    obtain ⟨hlow, hhigh, hother⟩ : maxHeaderBytes < stop + 4 ∧ stop + 4 ≤ maxHeaderBytes + 3 ∧
        parseHead (bytes.take stop) ≠ .error 431 := by
      rw [not_or, not_or, Nat.not_le, Nat.not_lt] at hcondition
      exact hcondition
    obtain ⟨⟨reads, hlong⟩, reads', hverdict⟩ := straddling_returns h hlow hhigh
    have hsame := hsteady.same _ _ _ _ hlong hverdict
    cases hparse : parseHead (bytes.take stop) with
    | error status =>
      rw [verdict_error hparse] at hsame
      exact hother (by rw [hparse, ← Except.error.inj hsame])
    | ok x =>
      rw [verdict_ok hparse] at hsame
      split at hsame <;> cases hsame
  · intro hcondition
    have hmax : maxHeaderBytes = 16384 := rfl
    have hbody : maxBodyBytes = 65536 := rfl
    have hall : ∀ reads result, Returns bytes reads result →
        result = if stop + 4 ≤ maxHeaderBytes + 3 then verdict bytes stop else .error 431 := by
      intro reads result hreturns
      rcases returns_cases h hreturns with ⟨hstop, rfl⟩ | ⟨hlong, rfl⟩
      · rw [if_pos hstop]
      · split
        next hstop =>
          rcases hcondition with hshort | hfar | hrefused
          · omega
          · omega
          · rw [verdict_error hrefused]
        next => rfl
    refine ⟨fun reads hreads => returns_of_given h hreads, fun reads reads' result result' hr hr' => ?_, fun reads => ?_,
      fun r length hstop hfits hparse reads result hreturns => ?_⟩
    · rw [hall reads result hr, hall reads' result' hr']
    · rcases (run_inv h (start_inv h) reads).held with hpeak | ⟨r, length, hparse, hfits, hstop, hpeak⟩
      · exact hpeak.trans (by omega)
      · refine hpeak.trans ?_
        rcases hcondition with hshort | hfar | hrefused
        · omega
        · omega
        · rw [hparse] at hrefused
          cases hrefused
    · rw [hall reads result hreturns, if_pos (by omega), verdict_ok hparse, if_neg (Nat.not_lt.mpr hfits)]

theorem formPost_steady : Steady formPost 44 ↔ 44 + 4 ≤ maxHeaderBytes ∨ maxHeaderBytes + 3 < 44 + 4 ∨
    parseHead (formPost.take 44) = .error 431 := by
  refine read_agrees formPost 44 ⟨by decide +kernel, fun r length hparse => ?_⟩
  have hhead : (parseHead (formPost.take 44)).map Prod.snd = .ok 3 := by decide +kernel
  rw [hparse] at hhead
  obtain rfl : length = 3 := Except.ok.inj hhead
  decide +kernel

/-- A head with a field of this length. -/
def wideHead (n : Nat) : Web.Http.HeadText := ⟨utf8 "GET", utf8 "/", utf8 "HTTP/1.1", [(utf8 "X", 32 :: List.replicate n 97)]⟩

namespace ReaderLemmas

theorem wideHead_sound (n : Nat) : Sound (wideHead n) := by
  have hnames : named "transfer-encoding" (utf8 "X", 32 :: List.replicate n 97) = false ∧
      named "content-length" (utf8 "X", 32 :: List.replicate n 97) = false :=
    ⟨(by decide : eqIgnoreAsciiCase (utf8 "X") (utf8 "transfer-encoding") = false),
      (by decide : eqIgnoreAsciiCase (utf8 "X") (utf8 "content-length") = false)⟩
  have hvalue : ∀ c ∈ fieldValue (utf8 "X", 32 :: List.replicate n 97), c = 32 ∨ c = 97 := by
    intro c hc
    rw [fieldValue, Web.Http.trimOws, List.mem_reverse] at hc
    have hc' := (List.dropWhile_suffix _).subset hc
    rw [List.mem_reverse] at hc'
    exact (List.mem_cons.mp ((List.dropWhile_suffix _).subset hc')).imp_right List.eq_of_mem_replicate
  rw [sound_iff, fits_iff]
  refine ⟨⟨⟨?_, ?_⟩, ?_⟩, ⟨?_, ?_⟩, .inl rfl, List.forall_mem_singleton.mpr ⟨⟨?_, ?_⟩, fun c hc => ?_, hnames.1, fun hnamed => ?_⟩,
    ?_, 0, List.forall_mem_singleton.mpr fun hnamed => ?_⟩
  · exact List.cons_ne_nil _ _
  · exact (by decide : (utf8 "GET").all Web.Http.isTchar = true)
  · exact (by decide : (utf8 "GET").length ≤ Web.Http.methodMax)
  · exact (by decide : (utf8 "/").head? = some 47)
  · exact (by decide : ∀ c ∈ utf8 "/", 0x20 < c ∧ c < 0x7F)
  · exact List.cons_ne_nil _ _
  · exact (by decide : (utf8 "X").all Web.Http.isTchar = true)
  · rcases hvalue c hc with rfl | rfl <;> decide
  · rw [hnames.2] at hnamed
    cases hnamed
  · exact (by decide : 1 ≤ Web.Http.maxHeaders)
  · rw [hnames.2] at hnamed
    cases hnamed

theorem wideHead_lengths (n : Nat) :
    (wideHead n).line.length + ((wideHead n).fields.flatMap Web.Http.fieldText).length = n + 21 ∧
      (wideHead n).bytes.length = n + 23 := by
  have hline : (wideHead n).line.length = 16 := by
    exact (by decide : (utf8 "GET" ++ 32 :: (utf8 "/" ++ 32 :: (utf8 "HTTP/1.1" ++ [13, 10]))).length = 16)
  have hname : (utf8 "X").length = 1 := by decide
  have hfields : ((wideHead n).fields.flatMap Web.Http.fieldText).length = n + 5 := by
    simp only [wideHead, List.flatMap_singleton, Web.Http.fieldText, List.length_append, List.length_cons, List.length_replicate,
      List.length_nil, hname]
    omega
  rw [Web.Http.HeadText.bytes, List.length_append, List.length_append, hline, hfields]
  exact ⟨by omega, by simp only [List.length_cons, List.length_nil]; omega⟩

/-- It is one request. -/
theorem wideHead_request (n : Nat) : OneRequest (wideHead n).bytes (n + 19) ∧
    ∃ r, parseHead ((wideHead n).bytes.take (n + 19)) = .ok (r, 0) := by
  have hsound := wideHead_sound n
  obtain ⟨hlines, hlen⟩ := wideHead_lengths n
  have hline : LineOk (wideHead n).method (wideHead n).target (wideHead n).version :=
    ⟨⟨hsound.framed.method, hsound.method⟩, hsound.served.target, (by decide : ((utf8 "/").takeWhile (· != 63)).length ≤ _), .inl rfl⟩
  have hfind : findSub blankLine ((wideHead n).bytes ++ []) = _ := bytes_lines hline hsound.framed.names hsound.served.values
  rw [List.append_nil, List.length_append, hlines] at hfind
  have hblock : (wideHead n).bytes.take (n + 19) = [13, 10].intercalate (lines (wideHead n)) := by
    have hjoined := bytes_joined (wideHead n)
    have hsum := congrArg List.length hjoined
    rw [List.length_append, hlen] at hsum
    rw [hjoined]
    refine List.take_left' ?_
    simp only [List.length_cons, List.length_nil] at hsum
    omega
  have hparse : parseHead ((wideHead n).bytes.take (n + 19)) = .ok (request (wideHead n)) := by
    refine parseHead_lines ?_ hsound (by decide : (utf8 "/").length ≤ targetMax)
    have hne : lines (wideHead n) ≠ [] := List.cons_ne_nil _ _
    rw [hblock, lines_joined hne (lines_free hsound)]
  have hlength : (request (wideHead n)).2 = 0 := by
    have hnamed : ¬ named "content-length" (utf8 "X", 32 :: List.replicate n 97) = true :=
      (by decide : ¬ eqIgnoreAsciiCase (utf8 "X") (utf8 "content-length") = true)
    rw [request, Web.Http.HeadText.head, wideHead, List.find?_cons_of_neg hnamed]
    rfl
  refine ⟨⟨hfind, fun r length h => ?_⟩, (request (wideHead n)).1, ?_⟩
  · rw [hparse] at h
    rw [Except.ok.inj h] at hlength
    rw [hlen, show length = 0 from hlength]
  · rw [hparse, ← hlength]

end ReaderLemmas

/-- A request whose blank line ends one byte behind the ceiling is read or refused. -/
theorem straddling_differs : ¬ Steady (wideHead 16362).bytes 16381 := by
  intro hsteady
  obtain ⟨hone, r, hparse⟩ := wideHead_request 16362
  have hmax : maxHeaderBytes = 16384 := rfl
  obtain ⟨⟨reads, hlong⟩, reads', hverdict⟩ := straddling_returns hone (by omega) (by omega)
  have hsame := hsteady.same _ _ _ _ hlong hverdict
  rw [verdict_ok hparse, if_neg (Nat.not_lt_zero _)] at hsame
  cases hsame

end OmtClient.Gui.Http
