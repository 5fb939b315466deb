import OmtClient.Ssh.Upload

/-!
# What an upload writes

`upload_on` of `crates/omt-deploy/src/ssh/sftp.rs` over a source that gives out its bytes in pieces of
any size, as `Source::read` does.

1. `step_feeds`: what a pass that goes on has done with the source.
2. `upload_tiles`: an upload that succeeds has every byte of the source written once.
-/

namespace OmtClient.Ssh.Sftp

open OmtClient.Lib Wire

/-- An upload, and what its source has still to give. -/
structure Fed where
  upload : Upload
  rest : Bytes

/-- What one pass gets from outside: a read fails, or gives so many bytes and one more, if there are as many. -/
structure Pass where
  turn : Turn
  size : Except String Nat

/-- `Source::read`, with the buffer of the loop. -/
def readSource (rest : Bytes) (size : Nat) : Chunk :=
  ⟨rest.take (min (size + 1) chunkMax), (List.length_take_le _ _).trans (Nat.min_le_right _ _)⟩

def Fed.turn (c : Fed) (p : Pass) : Turn := { p.turn with read := p.size.map (readSource c.rest) }

/-- The pass reads the source. -/
def Upload.reads (s : Upload) (t : Turn) : Bool := !s.drained && !t.cancelled && s.filling

/-- What is left of the source behind a pass. -/
def Fed.left (c : Fed) (p : Pass) : Bytes :=
  match p.size with
  | .ok size => if c.upload.reads p.turn then c.rest.drop (min (size + 1) chunkMax) else c.rest
  | .error _ => c.rest

def Fed.step (handle remote : Bytes) (c : Fed) (p : Pass) : Progress Fed (Except Error Unit) :=
  match c.upload.step handle remote (c.turn p) with
  | .running s => .running ⟨s, c.left p⟩
  | .done s r => .done ⟨s, c.left p⟩ r

/-- The loop, once the file is open. -/
def Fed.start (source remote : Bytes) : Fed := ⟨.start 1 [.init 3, .open 0 remote], source⟩

/-- Where the WRITE requests write and what. -/
def writes (requests : List Request) : List (Nat × Bytes) :=
  requests.filterMap fun
    | .write _ _ offset data => some (offset, data)
    | _ => none

/-- They write the first `n` bytes of the source, each of them once. -/
structure Tiles (source : Bytes) (n : Nat) (ws : List (Nat × Bytes)) : Prop where
  exact : ∀ w ∈ ws, w.1 + w.2.length ≤ n ∧ w.2 = (source.drop w.1).take w.2.length
  cover : ∀ i < n, ∃ w ∈ ws, w.1 ≤ i ∧ i < w.1 + w.2.length
  apart : ws.Pairwise fun a b => a.1 + a.2.length ≤ b.1

/-- What holds of an upload and its source. -/
structure Fed.Inv (source : Bytes) (c : Fed) : Prop where
  upload : c.upload.Inv
  tiles : Tiles source c.upload.offset (writes c.upload.requests)
  rest : c.rest = source.drop c.upload.offset
  within : c.upload.offset ≤ source.length
  atEnd : c.upload.atEnd = true → c.rest = []
  few : c.upload.window.inFlight ≤ inFlightMax

namespace TilingLemmas

open UploadLemmas

variable {handle remote source : Bytes} {s s' : Upload} {t : Turn} {c c' : Fed} {p : Pass} {ws : List (Nat × Bytes)} {n : Nat}

theorem writes_snoc (requests : List Request) (id : UInt32) (h : Bytes) (offset : Nat) (data : Bytes) :
    writes (requests ++ [.write id h offset data]) = writes requests ++ [(offset, data)] := by
  rw [writes, List.filterMap_append]
  rfl

/-- A pass that goes on has read the source, or it took an acknowledgement. -/
theorem step_reads (h : s.step handle remote t = .running s') :
    (s.reads t = true ∧ ∃ chunk : Chunk, t.read = .ok chunk ∧ (chunk.val = [] ∧ s' = { s with atEnd := true } ∨
      chunk.val ≠ [] ∧ s' = { s with
        window := s.window.issue
        offset := s.offset + chunk.val.length
        requests := s.requests ++ [.write s.window.nextId handle s.offset chunk.val] })) ∨
    (s.reads t = false ∧ ∃ id, s.window.accepts id = true ∧ s' = s.acknowledge id) := by
  unfold Upload.step at h
  split at h
  · -- CLOSE always ends the upload
    unfold Upload.finish at h
    split at h
    · cases h
    split at h
    · cases h
    split at h <;> cases h
  next hdrained =>
  split at h
  · cases h
  next hcancelled =>
  split at h
  next hfill =>
    unfold Upload.fill at h
    have hreads : s.reads t = true := by
      rw [Upload.reads, Bool.eq_false_iff.mpr hdrained, Bool.eq_false_iff.mpr hcancelled, hfill]
      rfl
    split at h
    · cases h
    next hread =>
      cases h
      exact .inl ⟨hreads, _, hread, .inl ⟨rfl, rfl⟩⟩
    next b bs hle hread =>
      split at h
      · cases h
      · cases h
        exact .inl ⟨hreads, _, hread, .inr ⟨List.cons_ne_nil _ _, rfl⟩⟩
  next hfill =>
    unfold Upload.collect at h
    dsimp only at h
    have hreads : s.reads t = false := by
      rw [Upload.reads, Bool.eq_false_iff.mpr hfill, Bool.and_false]
    split at h
    · cases h
    next id hid =>
      split at h
      next hacc =>
        cases h
        exact .inr ⟨hreads, id, hacc, rfl⟩
      · cases h

/-- What a pass that goes on has done with the source. -/
theorem step_feeds (h : c.step handle remote p = .running c') :
    (∃ size, c'.rest = c.rest.drop (min (size + 1) chunkMax) ∧ c.upload.filling = true ∧
      ((c.rest = [] ∧ c'.upload = { c.upload with atEnd := true }) ∨
       c.rest ≠ [] ∧ c'.upload = { c.upload with
          window := c.upload.window.issue
          offset := c.upload.offset + (c.rest.take (min (size + 1) chunkMax)).length
          requests := c.upload.requests ++
            [.write c.upload.window.nextId handle c.upload.offset (c.rest.take (min (size + 1) chunkMax))] })) ∨
    (c'.rest = c.rest ∧ ∃ id, c.upload.window.accepts id = true ∧ c'.upload = c.upload.acknowledge id) := by
  unfold Fed.step at h
  split at h
  next s' hstep =>
    cases h
    rcases step_reads hstep with ⟨hreads, chunk, hread, hcases⟩ | ⟨hreads, id, hacc, heq⟩
    · obtain ⟨size, hsize, hchunk⟩ : ∃ size, p.size = .ok size ∧ readSource c.rest size = chunk := by
        cases hsize : p.size with
        | error e =>
          rw [Fed.turn, hsize] at hread
          cases hread
        | ok size =>
          rw [Fed.turn, hsize] at hread
          exact ⟨size, rfl, Except.ok.inj hread⟩
      have hleft : c.left p = c.rest.drop (min (size + 1) chunkMax) := by
        have hreads' : c.upload.reads p.turn = true := hreads
        rw [Fed.left, hsize]
        dsimp only
        rw [hreads', if_pos rfl]
      have hfilling : c.upload.filling = true := by
        rw [Upload.reads, Bool.and_eq_true] at hreads
        exact hreads.2
      have hnil : chunk.val = [] ↔ c.rest = [] := by
        have hpos : min (size + 1) chunkMax ≠ 0 := by
          have hmax : 0 < chunkMax := by decide
          omega
        rw [← hchunk, readSource, List.take_eq_nil_iff, or_iff_right hpos]
      refine .inl ⟨size, hleft, hfilling, ?_⟩
      rw [← hchunk] at hcases
      rcases hcases with ⟨hend, heq⟩ | ⟨hsome, heq⟩
      · exact .inl ⟨hnil.mp (hchunk ▸ hend), heq⟩
      · exact .inr ⟨fun hend => hsome (hchunk ▸ hnil.mpr hend), heq⟩
    · have hleft : c.left p = c.rest := by
        have hreads' : c.upload.reads p.turn = false := hreads
        rw [Fed.left]
        split
        · rw [hreads', if_neg Bool.false_ne_true]
        · rfl
      exact .inr ⟨hleft, id, hacc, heq⟩
  · cases h

/-- The pass that ends the upload is its last step. -/
theorem step_done {r : Except Error Unit} (h : c.step handle remote p = .done c' r) :
    ∃ s, c.upload.step handle remote (c.turn p) = .done s r ∧ c' = ⟨s, c.left p⟩ := by
  unfold Fed.step at h
  split at h
  · cases h
  next s' r' hstep =>
    cases h
    exact ⟨s', hstep, rfl⟩

/-! ### What is kept -/

theorem tiles_nil (source : Bytes) : Tiles source 0 [] :=
  ⟨fun w hw => (by cases hw), fun i hi => absurd hi (Nat.not_lt_zero _), .nil⟩

/-- One more piece behind those there are. -/
theorem tiles_snoc {data : Bytes} (h : Tiles source n ws) (hdata : data = (source.drop n).take data.length) :
    Tiles source (n + data.length) (ws ++ [(n, data)]) := by
  refine ⟨fun w hw => ?_, fun i hi => ?_, List.pairwise_append.mpr ⟨h.apart, List.pairwise_singleton _ _, fun a ha b hb => ?_⟩⟩
  · rcases List.mem_append.mp hw with hold | hnew
    · obtain ⟨hend, heq⟩ := h.exact w hold
      exact ⟨hend.trans (Nat.le_add_right _ _), heq⟩
    · rw [List.mem_singleton.mp hnew]
      exact ⟨Nat.le_refl _, hdata⟩
  · rcases Nat.lt_or_ge i n with hlow | hhigh
    · obtain ⟨w, hw, hin⟩ := h.cover i hlow
      exact ⟨w, List.mem_append_left _ hw, hin⟩
    · exact ⟨(n, data), List.mem_append_right _ List.mem_cons_self, hhigh, hi⟩
  · rw [List.mem_singleton.mp hb]
    exact (h.exact a ha).1

theorem start_inv (source remote : Bytes) : (Fed.start source remote).Inv source :=
  ⟨Upload.start_inv 1 rfl, tiles_nil source, rfl, Nat.zero_le _, fun h => (by cases h), Nat.zero_le _⟩

/-- A pass keeps what holds. -/
theorem step_inv (hinv : c.Inv source) (h : c.step handle remote p = .running c') : c'.Inv source := by
  have hupload : c'.upload.Inv := by
    unfold Fed.step at h
    split at h
    next s' hstep =>
      cases h
      exact Upload.step_inv hinv.upload hstep
    · cases h
  obtain ⟨upload, rest⟩ := c'
  rcases step_feeds h with ⟨size, hrest, hfilling, ⟨hend, heq⟩ | ⟨hsome, heq⟩⟩ | ⟨hrest, id, hacc, heq⟩
  · dsimp only at hrest heq hupload
    subst heq hrest
    have hnil : c.rest.drop (min (size + 1) chunkMax) = [] := by rw [hend, List.drop_nil]
    exact ⟨hupload, hinv.tiles, hnil.trans (hend.symm.trans hinv.rest), hinv.within, fun _ => hnil, hinv.few⟩
  · dsimp only at hrest heq hupload
    subst heq hrest
    have htake : c.rest.take (min (size + 1) chunkMax) =
        (source.drop c.upload.offset).take (c.rest.take (min (size + 1) chunkMax)).length := by
      rw [← hinv.rest]
      exact List.prefix_iff_eq_take.mp (List.take_prefix _ _)
    have hlen := congrArg List.length hinv.rest
    rw [List.length_drop] at hlen
    have hwithin := hinv.within
    rw [Upload.filling, Bool.and_eq_true, Bool.not_eq_true', decide_eq_true_eq] at hfilling
    refine ⟨hupload, ?_, ?_, ?_, fun hatEnd => ?_, hfilling.2⟩
    · dsimp only
      rw [writes_snoc]
      exact tiles_snoc hinv.tiles htake
    · dsimp only
      rw [← List.drop_drop, ← hinv.rest, List.length_take]
      rcases Nat.le_total (min (size + 1) chunkMax) c.rest.length with hle | hge
      · rw [Nat.min_eq_left hle]
      · rw [Nat.min_eq_right hge, List.drop_length, List.drop_eq_nil_of_le hge]
    · dsimp only
      rw [List.length_take]
      omega
    · have hatEnd' : c.upload.atEnd = true := hatEnd
      rw [hfilling.1] at hatEnd'
      cases hatEnd'
  · dsimp only at hrest heq hupload
    subst heq hrest
    refine ⟨hupload, hinv.tiles, hinv.rest, hinv.within, hinv.atEnd, ?_⟩
    exact (Nat.sub_le _ _).trans hinv.few

theorem run_inv {passes : List Pass} (h : drive (Fed.step handle remote) (.start source remote) passes = .running c) : c.Inv source :=
  drive_invariant (fun _ _ _ hi hs => step_inv hi hs) (start_inv source remote) h

/-- A pass that ends the upload leaves the window as it was, but for the next id, or it has sent one WRITE more. -/
theorem step_ends {r : Except Error Unit} (h : s.step handle remote t = .done s' r) :
    s'.window.outstanding = s.window.outstanding ∨
      (s.filling = true ∧ s'.window.outstanding = s.window.outstanding ++ [s.window.nextId]) := by
  unfold Upload.step at h
  split at h
  · unfold Upload.finish at h
    refine .inl ?_
    split at h
    · cases h
      rfl
    split at h
    · cases h
      rfl
    split at h <;> (cases h; rfl)
  split at h
  · cases h
    exact .inl rfl
  split at h
  next hfill =>
    unfold Upload.fill at h
    split at h
    · cases h
      exact .inl rfl
    · cases h
    · split at h
      · cases h
        exact .inr ⟨hfill, rfl⟩
      · cases h
  · unfold Upload.collect at h
    dsimp only at h
    refine .inl ?_
    split at h
    · cases h
      split <;> rfl
    · split at h
      · cases h
      · cases h
        rfl

/-- The CLOSE at the end is no WRITE. -/
theorem success_writes (h : s.step handle remote t = .done s' (.ok ())) : writes s'.requests = writes s.requests := by
  have hdrained := (step_success h).1
  rw [Upload.step, if_pos hdrained, Upload.finish] at h
  split at h
  · cases h
  split at h
  · cases h
  split at h
  · cases h
  · cases h
    rw [Upload.closing, writes, List.filterMap_append]
    exact List.append_nil _

end TilingLemmas

open TilingLemmas UploadLemmas

/-- Whatever the sizes of the reads and the order of the replies, at most so many writes are outstanding; and
when the upload succeeds, every WRITE that was sent is acknowledged and they are the source. -/
theorem upload_tiles (handle remote source : Bytes) (passes : List Pass) :
    (drive (Fed.step handle remote) (.start source remote) passes).state.upload.window.outstanding.length ≤ inFlightMax ∧
    ∀ c, drive (Fed.step handle remote) (.start source remote) passes = .done c (.ok ()) →
      c.upload.acked.Perm (writeIds c.upload.requests) ∧ Tiles source source.length (writes c.upload.requests) := by
  refine ⟨?_, fun c hdone => ?_⟩
  · cases hrun : drive (Fed.step handle remote) (.start source remote) passes with
    | running c =>
      have hinv := run_inv hrun
      exact hinv.upload.sound.count ▸ hinv.few
    | done c r =>
      obtain ⟨_, p, _, m, -, hbefore, hlast⟩ := drive_done hrun
      have hinv := run_inv hbefore
      have hcount := hinv.upload.sound.count
      have hfew := hinv.few
      obtain ⟨s, hstep, rfl⟩ := step_done hlast
      show s.window.outstanding.length ≤ inFlightMax
      rcases step_ends hstep with hsame | ⟨hfilling, hone⟩
      · rw [hsame, ← hcount]
        exact hfew
      · rw [Upload.filling, Bool.and_eq_true, decide_eq_true_eq] at hfilling
        rw [hone, List.length_append, List.length_singleton, ← hcount]
        exact hfilling.2
  · obtain ⟨_, p, _, m, -, hbefore, hlast⟩ := drive_done hdone
    have hinv := run_inv hbefore
    obtain ⟨s, hstep, rfl⟩ := step_done hlast
    obtain ⟨hdrained, hacked, hids⟩ := step_success hstep
    rw [Upload.drained, Bool.and_eq_true, beq_iff_eq] at hdrained
    have hnone : m.upload.window.outstanding = [] :=
      List.eq_nil_of_length_eq_zero (hinv.upload.sound.count ▸ hdrained.2)
    have hwhole : m.upload.offset = source.length := by
      have hrest := hinv.rest
      rw [hinv.atEnd hdrained.1] at hrest
      exact Nat.le_antisymm hinv.within (List.drop_eq_nil_iff.mp hrest.symm)
    have hperm := hinv.upload.ids
    rw [hnone, List.append_nil] at hperm
    show s.acked.Perm (writeIds s.requests) ∧ Tiles source source.length (writes s.requests)
    rw [hacked, hids, success_writes hstep, ← hwhole]
    exact ⟨hperm.symm, hinv.tiles⟩

end OmtClient.Ssh.Sftp
