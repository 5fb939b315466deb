import OmtClient.Lib.Evict
import OmtClient.Omt.Target
import OmtClient.Receiver.Dbus

/-!
# The Avahi browse

`browse` of `crates/omt-receiver/src/mdns.rs` with the set of sources that it fills, of
`discovery.rs`. A scan is the signals in the order in which `Bus::next` returns them, each
with what a `ServiceResolverNew` call for it answers. `hear` is what a signal says; what the
browse makes of it depends on what it remembers.

1. `browse_keeps`: a listed name was found and never withdrawn, not even before.
2. `lists_iff`: the list has the names that were resolved after an announcement that was not
   withdrawn, except where one is announced again after it was withdrawn.
-/

namespace OmtClient.Receiver.Mdns

open OmtClient.Lib OmtClient.Omt OmtClient.Receiver.Dbus

def browserInterface : String := "org.freedesktop.Avahi.ServiceBrowser"
def resolverInterface : String := "org.freedesktop.Avahi.ServiceResolver"
def serviceType : String := "_omt._tcp"
def maxResolvers : Nat := 256
def maxRemoved : Nat := 256
def maxSources : Nat := 256

/-! ## The set of sources -/

structure Source where
  name : String
  endpoint : DirectTarget
  deriving DecidableEq

abbrev SourceSet := List Source

def names (out : SourceSet) : List String := out.map Source.name

def SourceSet.put (out : SourceSet) (name : String) (ep : DirectTarget) : SourceSet :=
  match out.findIdx? (·.name == name) with
  | some i => out.modify i fun s => { s with endpoint := ep }
  | none => if maxSources ≤ out.length then out else out ++ [⟨name, ep⟩]

def SourceSet.remove (out : SourceSet) (name : String) : SourceSet :=
  match out.findIdx? (·.name == name) with
  | some i => swapRemove out i
  | none => out

def SourceSet.sort (out : SourceSet) : SourceSet := out.mergeSort fun a b => decide (utf8 a.name ≤ utf8 b.name)

def endpointFromParts (address : String) (port : UInt16) : Option DirectTarget :=
  if port = 0 then none
  else
    let v4 := parseIpv4 (utf8 address)
    let v6 := if v4.isNone then parseIpv6 (utf8 address) else none
    if v4.any isUndiallableIpv4 || v6.any isUndiallableIpv6 then none
    else
      let candidate :=
        if v6.isSome then utf8 "omt://[" ++ utf8 address ++ utf8 "]:" ++ numeral 10 port.toNat
        else utf8 "omt://" ++ utf8 address ++ utf8 ":" ++ numeral 10 port.toNat
      (parseDirectTarget candidate).toOption

/-! ## Signals -/

def isSignal (m : Message) (interface member : String) : Bool :=
  m.kind == signal && m.text m.member == some member && m.text m.interface == some interface

structure BrowserItem where
  interface : Int32
  protocol : Int32
  name : String
  kind : String
  domain : String
  deriving DecidableEq

def readBrowserItem (m : Message) : Option BrowserItem :=
  if m.signatureText ≠ "iisssu" then none
  else
    let (interface, r) := m.reader.i32
    let (protocol, r) := r.i32
    let (name, r) := r.string
    let (kind, r) := r.string
    let (domain, r) := r.string
    let (_, r) := r.u32
    if r.failed then none else some ⟨interface, protocol, name, kind, domain⟩

section

variable (isNormalized : String → Nat → Bool)

def resolvedSource (m : Message) : Option (String × DirectTarget) :=
  if m.signatureText ≠ "iissssisqaayu" then none
  else
    let (_, r) := m.reader.i32
    let (_, r) := r.i32
    let (name, r) := r.string
    let (_, r) := r.string
    let (_, r) := r.string
    let (_, r) := r.string
    let (_, r) := r.i32
    let (address, r) := r.string
    let (port, r) := r.u16
    let r := r.skipAay
    let (_, r) := r.u32
    if r.failed || r.pos != r.stop || !isValidSourceName isNormalized name then none
    else (endpointFromParts address port).map fun ep => (name, ep)

end

def replyPath (reply : Message) : Option String :=
  if reply.signatureText ≠ "o" then none
  else
    let (path, r) := reply.reader.string
    if r.failed then none else some path

/-! ## The browse -/

/-- A signal, and what a `ServiceResolverNew` call that is made for it answers. -/
structure Event where
  m : Message
  reply : Option Message
  deriving DecidableEq

structure Browse where
  resolvers : List String
  removed : List String
  out : SourceSet
  deriving DecidableEq

def Browse.start : Browse := ⟨[], [], []⟩

section

variable (isNormalized : String → Nat → Bool)

/-- One pass of the loop in `browse`. -/
def browseStep (capacity : Nat) (b : Browse) (e : Event) : Browse :=
  if isSignal e.m browserInterface "ItemNew" then
    if b.resolvers.length < maxResolvers then
      match readBrowserItem e.m with
      | none => b
      | some item =>
        if item.kind = serviceType then
          match e.reply.bind replyPath with
          | some path => { b with resolvers := b.resolvers ++ [path] }
          | none => b
        else b
    else b
  else if isSignal e.m browserInterface "ItemRemove" then
    match readBrowserItem e.m with
    | none => b
    | some item =>
      let removed :=
        if b.removed.length < maxRemoved ∧ (utf8 item.name).length ≤ sourceNameMaxBytes ∧ item.name ∉ b.removed then
          b.removed ++ [item.name]
        else b.removed
      { b with out := b.out.remove item.name, removed }
  else if isSignal e.m resolverInterface "Found" then
    match resolvedSource isNormalized e.m with
    | none => b
    | some (name, endpoint) =>
      if name ∉ b.removed ∧ b.out.length < capacity then { b with out := b.out.put name endpoint } else b
  else b

/-- `browse`, from the reply to `ServiceBrowserNew` and the signals up to the deadline. -/
def browse (capacity : Nat) (browser : Option Message) (es : List Event) : SourceSet :=
  match browser.bind replyPath with
  | none => []
  | some _ => (es.foldl (browseStep isNormalized capacity) Browse.start).out

/-- `discover_sources` without a configured server. -/
def discoverSources (browser : Option Message) (es : List Event) : SourceSet :=
  (browse isNormalized maxSources browser es).sort

/-! ## What the signals say -/

inductive Heard
  | announced (name path : String)
  | withdrawn (name : String)
  | found (path : Option String) (name : String) (endpoint : DirectTarget)
  | nothing
  deriving DecidableEq

/-- What a signal says, with the resolver that is created for an announcement. -/
def hear (e : Event) : Heard :=
  if isSignal e.m browserInterface "ItemNew" then
    match readBrowserItem e.m with
    | none => .nothing
    | some item => if item.kind = serviceType then ((e.reply.bind replyPath).elim .nothing fun path => .announced item.name path) else .nothing
  else if isSignal e.m browserInterface "ItemRemove" then
    (readBrowserItem e.m).elim .nothing fun item => .withdrawn item.name
  else if isSignal e.m resolverInterface "Found" then
    (resolvedSource isNormalized e.m).elim .nothing fun s => .found (e.m.text e.m.path) s.1 s.2
  else .nothing

def Withdrawn (es : List Event) (n : String) : Prop := ∃ e ∈ es, hear isNormalized e = .withdrawn n

def Found (es : List Event) (n : String) : Prop := ∃ e ∈ es, ∃ path ep, hear isNormalized e = .found path n ep

/-- A `Found` came from the resolver of an announcement that was not withdrawn after it. -/
def Resolved (es : List Event) (n : String) : Prop :=
  ∃ pre new mid found post path ep, es = pre ++ new :: (mid ++ found :: post) ∧
    hear isNormalized new = .announced n path ∧ hear isNormalized found = .found (some path) n ep ∧
    ¬ Withdrawn isNormalized (mid ++ found :: post) n

/-- A name is resolved from an announcement that came after a withdrawal. -/
def Revived (es : List Event) (n : String) : Prop :=
  ∃ pre e post, es = pre ++ e :: post ∧ hear isNormalized e = .withdrawn n ∧ Resolved isNormalized post n

/-- Resolvers answer with the name that they were created for, and on their own path. -/
def Answered (es : List Event) : Prop :=
  ∀ pre e post path n ep, es = pre ++ e :: post → hear isNormalized e = .found path n ep →
    ∃ p, path = some p ∧ ∃ new ∈ pre, hear isNormalized new = .announced n p

/-- A cap keeps the browse from doing what the signal asks for. -/
def Stopped (b : Browse) (e : Event) : Prop :=
  match hear isNormalized e with
  | .announced _ _ => maxResolvers ≤ b.resolvers.length
  | .withdrawn n => maxRemoved ≤ b.removed.length ∧ n ∉ b.removed ∧ (utf8 n).length ≤ sourceNameMaxBytes
  | .found _ n _ => maxSources ≤ b.out.length ∧ n ∉ b.removed ∧ n ∉ names b.out
  | .nothing => False

def Within (es : List Event) : Prop :=
  ∀ pre e post, es = pre ++ e :: post →
    ¬ Stopped isNormalized (pre.foldl (browseStep isNormalized maxSources) Browse.start) e

/-- A scan of a daemon that answers for the resolvers it was asked for, within the caps. -/
structure Scan where
  browser : Message
  events : List Event
  started : (replyPath browser).isSome = true
  answered : Answered isNormalized events
  within : Within isNormalized events

variable {isNormalized}

def Scan.sources (s : Scan isNormalized) : SourceSet := discoverSources isNormalized (some s.browser) s.events

/-- The list has the names that were resolved and not withdrawn, once each and in order. -/
structure Lists (s : Scan isNormalized) : Prop where
  mem_iff : ∀ n, n ∈ names s.sources ↔ Resolved isNormalized s.events n
  nodup : (names s.sources).Nodup
  small : s.sources.length ≤ maxSources
  sorted : (names s.sources).Pairwise fun a b => utf8 a ≤ utf8 b

end

namespace MdnsLemmas

variable {out : SourceSet} {n m : String} {ep : DirectTarget} {isNormalized : String → Nat → Bool}

/-! ## What the set keeps -/

theorem findIdx_split {i : Nat} (h : out.findIdx? (·.name == n) = some i) :
    ∃ as x bs, out = as ++ x :: bs ∧ as.length = i ∧ x.name = n := by
  obtain ⟨hi, hx, -⟩ := List.findIdx?_eq_some_iff_getElem.mp h
  refine ⟨out.take i, out[i], out.drop (i + 1), ?_, List.length_take_of_le (Nat.le_of_lt hi), beq_iff_eq.mp hx⟩
  rw [List.getElem_cons_drop, List.take_append_drop]

theorem findIdx_none (h : out.findIdx? (·.name == n) = none) : n ∉ names out := by
  intro hmem
  obtain ⟨s, hs, rfl⟩ := List.mem_map.mp hmem
  have hne := List.findIdx?_eq_none_iff.mp h s hs
  rw [beq_self_eq_true] at hne
  cases hne

/-- An endpoint that is replaced leaves the names as they are. -/
theorem names_put_listed (h : n ∈ names out) : names (out.put n ep) = names out := by
  unfold SourceSet.put
  cases hfind : out.findIdx? (·.name == n) with
  | none => exact absurd h (findIdx_none hfind)
  | some i =>
    refine List.ext_getElem? fun j => ?_
    rw [names, List.getElem?_map, names, List.getElem?_map, List.getElem?_modify]
    cases out[j]? with
    | none => rfl
    | some s =>
      show some (Source.name (if i = j then _ else s)) = some s.name
      split
      · rfl
      · rfl

theorem names_put_new (h : n ∉ names out) :
    names (out.put n ep) = if maxSources ≤ out.length then names out else names out ++ [n] := by
  unfold SourceSet.put
  cases hfind : out.findIdx? (·.name == n) with
  | some i =>
    obtain ⟨as, x, bs, rfl, -, rfl⟩ := findIdx_split hfind
    exact absurd (List.mem_map_of_mem (List.mem_append_right as List.mem_cons_self)) h
  | none =>
    dsimp only
    split
    · rfl
    · rw [names, List.map_append]
      rfl

theorem names_remove (hnodup : (names out).Nodup) :
    (names (out.remove n)).Nodup ∧ ∀ m, m ∈ names (out.remove n) ↔ m ∈ names out ∧ m ≠ n := by
  unfold SourceSet.remove
  cases hfind : out.findIdx? (·.name == n) with
  | none =>
    refine ⟨hnodup, ?_⟩
    intro m
    constructor
    · intro hm
      refine ⟨hm, ?_⟩
      rintro rfl
      exact findIdx_none hfind hm
    · exact And.left
  | some i =>
    obtain ⟨as, x, bs, rfl, rfl, rfl⟩ := findIdx_split hfind
    have hperm := (EvictLemmas.perm_swapRemove_append as bs x).map Source.name
    have hmiddle : (names (as ++ x :: bs)).Perm (x.name :: names (as ++ bs)) := List.perm_middle.map Source.name
    obtain ⟨hfresh, hrest⟩ := List.nodup_cons.mp (hmiddle.nodup_iff.mp hnodup)
    refine ⟨hperm.nodup_iff.mpr hrest, ?_⟩
    intro m
    show m ∈ names (swapRemove (as ++ x :: bs) as.length) ↔ _
    rw [show m ∈ names (swapRemove (as ++ x :: bs) as.length) ↔ m ∈ names (as ++ bs) from hperm.mem_iff, hmiddle.mem_iff,
      List.mem_cons]
    constructor
    · intro hm
      refine ⟨.inr hm, ?_⟩
      rintro rfl
      exact hfresh hm
    · rintro ⟨rfl | hm, hne⟩
      · exact absurd rfl hne
      · exact hm

theorem length_remove : (out.remove n).length ≤ out.length := by
  unfold SourceSet.remove
  cases hfind : out.findIdx? (·.name == n) with
  | none => exact Nat.le_refl _
  | some i =>
    obtain ⟨as, x, bs, rfl, rfl, -⟩ := findIdx_split hfind
    rw [(EvictLemmas.perm_swapRemove_append as bs x).length_eq, List.length_append, List.length_append, List.length_cons]
    omega

/-! ## One signal -/

/-- A signal acts by what it says. -/
theorem browseStep_eq (b : Browse) (e : Event) : browseStep isNormalized maxSources b e =
    match hear isNormalized e with
    | .announced _ path => if b.resolvers.length < maxResolvers then { b with resolvers := b.resolvers ++ [path] } else b
    | .withdrawn n =>
      { b with
        out := b.out.remove n
        removed :=
          if b.removed.length < maxRemoved ∧ (utf8 n).length ≤ sourceNameMaxBytes ∧ n ∉ b.removed then b.removed ++ [n]
          else b.removed }
    | .found _ n ep => if n ∉ b.removed ∧ b.out.length < maxSources then { b with out := b.out.put n ep } else b
    | .nothing => b := by
  unfold browseStep hear
  split
  · cases readBrowserItem e.m with
    | none =>
      dsimp only
      split <;> rfl
    | some item =>
      dsimp only
      by_cases hkind : item.kind = serviceType
      · rw [if_pos hkind, if_pos hkind]
        cases e.reply.bind replyPath with
        | none =>
          dsimp only [Option.elim]
          split <;> rfl
        | some path => rfl
      · rw [if_neg hkind, if_neg hkind]
        dsimp only
        split <;> rfl
  split
  · cases readBrowserItem e.m with
    | none => rfl
    | some item => rfl
  split
  · cases resolvedSource isNormalized e.m with
    | none => rfl
    | some s => rfl
  · rfl

/-! ## A whole scan -/

variable {es : List Event} {e : Event}

theorem withdrawn_concat : Withdrawn isNormalized (es ++ [e]) n ↔
    Withdrawn isNormalized es n ∨ hear isNormalized e = .withdrawn n := by
  unfold Withdrawn
  simp only [List.mem_append, List.mem_singleton, or_and_right, exists_or, exists_eq_left]

theorem found_concat : Found isNormalized (es ++ [e]) n ↔
    Found isNormalized es n ∨ ∃ path ep, hear isNormalized e = .found path n ep := by
  unfold Found
  simp only [List.mem_append, List.mem_singleton, or_and_right, exists_or, exists_eq_left]

variable (isNormalized) in
/-- What the browse remembers of the signals so far. -/
structure Keeps (es : List Event) (b : Browse) : Prop where
  removed_iff : ∀ n, n ∈ b.removed ↔ Withdrawn isNormalized es n ∧ (utf8 n).length ≤ sourceNameMaxBytes
  listed_iff : ∀ n, n ∈ names b.out ↔ Found isNormalized es n ∧ ¬ Withdrawn isNormalized es n
  nodup : (names b.out).Nodup
  small : b.out.length ≤ maxSources

theorem resolvedSource_valid {m : Message} (h : resolvedSource isNormalized m = some (n, ep)) :
    isValidSourceName isNormalized n = true := by
  unfold resolvedSource at h
  split at h
  · cases h
  dsimp only at h
  split at h
  · cases h
  next hgood =>
    obtain ⟨ep', -, hpair⟩ := Option.map_eq_some_iff.mp h
    cases hpair
    simp only [Bool.or_eq_true, not_or, Bool.not_eq_true', Bool.not_eq_false] at hgood
    exact hgood.2

theorem hear_found {path : Option String} (h : hear isNormalized e = .found path n ep) :
    resolvedSource isNormalized e.m = some (n, ep) := by
  unfold hear at h
  split at h
  · cases hitem : readBrowserItem e.m with
    | none =>
      rw [hitem] at h
      cases h
    | some item =>
      rw [hitem] at h
      dsimp only at h
      split at h
      · cases hpath : e.reply.bind replyPath with
        | none =>
          rw [hpath] at h
          cases h
        | some path =>
          rw [hpath] at h
          cases h
      · cases h
  split at h
  · cases hitem : readBrowserItem e.m with
    | none =>
      rw [hitem] at h
      cases h
    | some item =>
      rw [hitem] at h
      cases h
  split at h
  · cases hsource : resolvedSource isNormalized e.m with
    | none =>
      rw [hsource] at h
      cases h
    | some s =>
      rw [hsource] at h
      cases h
      rfl
  · cases h

/-- The name of a source that is found is short. -/
theorem found_short {path : Option String} (h : hear isNormalized e = .found path n ep) :
    (utf8 n).length ≤ sourceNameMaxBytes := by
  have hvalid := resolvedSource_valid (hear_found h)
  unfold isValidSourceName at hvalid
  split at hvalid
  · cases hvalid
  next hlong => exact Nat.le_of_not_lt fun hlt => hlong (.inr hlt)

theorem keeps_start : Keeps isNormalized [] Browse.start where
  removed_iff := by
    intro n
    constructor
    · rintro ⟨⟩
    · rintro ⟨⟨e, he, -⟩, -⟩
      cases he
  listed_iff := by
    intro n
    constructor
    · rintro ⟨⟩
    · rintro ⟨⟨e, he, -⟩, -⟩
      cases he
  nodup := List.nodup_nil
  small := Nat.zero_le _

theorem keeps_step {b : Browse} (hkeeps : Keeps isNormalized es b) (hgo : ¬ Stopped isNormalized b e) :
    Keeps isNormalized (es ++ [e]) (browseStep isNormalized maxSources b e) := by
  have hsame (hw : ∀ n, hear isNormalized e ≠ .withdrawn n) (n : String) :
      Withdrawn isNormalized (es ++ [e]) n ↔ Withdrawn isNormalized es n := by
    rw [withdrawn_concat]
    exact or_iff_left (hw n)
  have hquiet (hf : ∀ path n ep, hear isNormalized e ≠ .found path n ep) (n : String) :
      Found isNormalized (es ++ [e]) n ↔ Found isNormalized es n := by
    rw [found_concat]
    refine or_iff_left ?_
    rintro ⟨path, ep, h⟩
    exact hf path n ep h
  have hother (hw : ∀ n, hear isNormalized e ≠ .withdrawn n) (hf : ∀ path n ep, hear isNormalized e ≠ .found path n ep) :
      Keeps isNormalized (es ++ [e]) b := by
    refine ⟨?_, ?_, hkeeps.nodup, hkeeps.small⟩
    · intro n
      rw [hkeeps.removed_iff, hsame hw]
    · intro n
      rw [hkeeps.listed_iff, hsame hw, hquiet hf]
  rw [browseStep_eq]
  cases hhear : hear isNormalized e with
  | nothing =>
    refine hother ?_ ?_
    · intro n h
      rw [hhear] at h
      cases h
    · intro path n ep h
      rw [hhear] at h
      cases h
  | announced name path =>
    have hb := hother (by intro n h; rw [hhear] at h; cases h) (by intro path n ep h; rw [hhear] at h; cases h)
    dsimp only
    split
    · exact ⟨hb.removed_iff, hb.listed_iff, hb.nodup, hb.small⟩
    · exact hb
  | withdrawn w =>
    have hstay (n : String) : Found isNormalized (es ++ [e]) n ↔ Found isNormalized es n := by
      refine hquiet ?_ n
      intro path n ep h
      rw [hhear] at h
      cases h
    have hgone (n : String) : Withdrawn isNormalized (es ++ [e]) n ↔ Withdrawn isNormalized es n ∨ n = w := by
      rw [withdrawn_concat, hhear, Heard.withdrawn.injEq, eq_comm]
    obtain ⟨hnodup, hnames⟩ := @names_remove _ w hkeeps.nodup
    refine ⟨?_, ?_, hnodup, Nat.le_trans length_remove hkeeps.small⟩
    · intro n
      rw [hgone]
      unfold Stopped at hgo
      rw [hhear] at hgo
      dsimp only at hgo ⊢
      have hold := hkeeps.removed_iff n
      have hw := hkeeps.removed_iff w
      split
      next hnew =>
        rw [List.mem_append, List.mem_singleton, hold]
        constructor
        · rintro (⟨h, hshort⟩ | rfl)
          · exact ⟨.inl h, hshort⟩
          · exact ⟨.inr rfl, hnew.2.1⟩
        · rintro ⟨h | rfl, hshort⟩
          · exact .inl ⟨h, hshort⟩
          · exact .inr rfl
      next hkept =>
        rw [hold]
        constructor
        · exact fun h => ⟨.inl h.1, h.2⟩
        · rintro ⟨h | rfl, hshort⟩
          · exact ⟨h, hshort⟩
          · by_contra hno
            have hfresh : n ∉ b.removed := fun hmem => hno (hold.mp hmem)
            have hroom : b.removed.length < maxRemoved := Nat.lt_of_not_le fun hfull => hgo ⟨hfull, hfresh, hshort⟩
            exact hkept ⟨hroom, hshort, hfresh⟩
    · intro n
      rw [hnames, hkeeps.listed_iff, hstay, hgone, not_or, and_assoc]
  | found path f ep =>
    have hsame' (n : String) : Withdrawn isNormalized (es ++ [e]) n ↔ Withdrawn isNormalized es n := by
      refine hsame ?_ n
      intro n h
      rw [hhear] at h
      cases h
    have hnow (n : String) : Found isNormalized (es ++ [e]) n ↔ Found isNormalized es n ∨ n = f := by
      rw [found_concat]
      refine or_congr_right ?_
      constructor
      · rintro ⟨path', ep', h⟩
        rw [hhear] at h
        cases h
        rfl
      · rintro rfl
        exact ⟨path, ep, hhear⟩
    have hshort := found_short hhear
    have hremoved := hkeeps.removed_iff f
    unfold Stopped at hgo
    rw [hhear] at hgo
    dsimp only at hgo ⊢
    -- a name that is listed already, or that was withdrawn, changes nothing
    have hkept (h : f ∈ names b.out ∨ f ∈ b.removed) (n : String) : n ∈ names b.out ↔
        Found isNormalized (es ++ [e]) n ∧ ¬ Withdrawn isNormalized (es ++ [e]) n := by
      rw [hkeeps.listed_iff, hnow, hsame']
      constructor
      · exact fun hn => ⟨.inl hn.1, hn.2⟩
      · rintro ⟨hn | rfl, hgone⟩
        · exact ⟨hn, hgone⟩
        · rcases h with hlisted | hrem
          · exact (hkeeps.listed_iff n).mp hlisted
          · exact absurd (hremoved.mp hrem).1 hgone
    by_cases hrem : f ∈ b.removed
    · rw [if_neg fun h => h.1 hrem]
      refine ⟨?_, hkept (.inr hrem), hkeeps.nodup, hkeeps.small⟩
      intro n
      rw [hkeeps.removed_iff, hsame']
    have hgone : ¬ Withdrawn isNormalized es f := fun h => hrem (hremoved.mpr ⟨h, hshort⟩)
    by_cases hroom : b.out.length < maxSources
    · rw [if_pos ⟨hrem, hroom⟩]
      refine ⟨?_, ?_, ?_, ?_⟩
      · intro n
        rw [hsame']
        exact hkeeps.removed_iff n
      · intro n
        by_cases hlisted : f ∈ names b.out
        · rw [names_put_listed hlisted]
          exact hkept (.inl hlisted) n
        · rw [names_put_new hlisted, if_neg (Nat.not_le.mpr hroom), List.mem_append, List.mem_singleton,
            hkeeps.listed_iff, hnow, hsame']
          constructor
          · rintro (h | rfl)
            · exact ⟨.inl h.1, h.2⟩
            · exact ⟨.inr rfl, hgone⟩
          · rintro ⟨h | rfl, hn⟩
            · exact .inl ⟨h, hn⟩
            · exact .inr rfl
      · by_cases hlisted : f ∈ names b.out
        · rw [names_put_listed hlisted]
          exact hkeeps.nodup
        · rw [names_put_new hlisted, if_neg (Nat.not_le.mpr hroom)]
          exact (List.perm_append_singleton f _).nodup_iff.mpr (List.nodup_cons.mpr ⟨hlisted, hkeeps.nodup⟩)
      · rw [← @List.length_map _ _ _ Source.name]
        by_cases hlisted : f ∈ names b.out
        · rw [show (b.out.put f ep).map Source.name = names b.out from names_put_listed hlisted, names, List.length_map]
          exact hkeeps.small
        · rw [show (b.out.put f ep).map Source.name = _ from names_put_new hlisted, if_neg (Nat.not_le.mpr hroom),
            List.length_append, names, List.length_map]
          exact hroom
    · rw [if_neg fun h => hroom h.2]
      have hlisted : f ∈ names b.out := by
        by_contra hno
        exact hgo ⟨Nat.le_of_not_lt hroom, hrem, hno⟩
      refine ⟨?_, hkept (.inl hlisted), hkeeps.nodup, hkeeps.small⟩
      intro n
      rw [hkeeps.removed_iff, hsame']

/-- The browse after the signals of a scan. -/
theorem browse_keeps (hwithin : Within isNormalized es) :
    Keeps isNormalized es (es.foldl (browseStep isNormalized maxSources) Browse.start) := by
  induction es using List.reverseRecOn with
  | nil => exact keeps_start
  | append_singleton es e ih =>
    rw [List.foldl_concat]
    refine keeps_step (ih ?_) (hwithin es e [] rfl)
    rintro pre e' post rfl
    exact hwithin pre e' (post ++ [e]) (by rw [List.append_assoc]; rfl)

/-! ## Announcements and withdrawals -/

theorem found_of_resolved (h : Resolved isNormalized es n) : Found isNormalized es n := by
  obtain ⟨pre, new, mid, found, post, path, ep, rfl, -, hfound, -⟩ := h
  exact ⟨found, by simp, some path, ep, hfound⟩

/-- A name that was found and never withdrawn is resolved. -/
theorem resolved_of_found (hanswered : Answered isNormalized es) (hfound : Found isNormalized es n)
    (hgone : ¬ Withdrawn isNormalized es n) : Resolved isNormalized es n := by
  obtain ⟨found, hmem, path, ep, hhear⟩ := hfound
  obtain ⟨before, post, rfl⟩ := List.mem_iff_append.mp hmem
  obtain ⟨p, rfl, new, hnew, hannounced⟩ := hanswered before found post path n ep rfl hhear
  obtain ⟨pre, mid, rfl⟩ := List.mem_iff_append.mp hnew
  refine ⟨pre, new, mid, found, post, p, ep, ?_, hannounced, hhear, ?_⟩
  · rw [List.append_assoc, List.cons_append]
  · rintro ⟨e, he, hw⟩
    exact hgone ⟨e, by simp only [List.mem_append, List.mem_cons] at he ⊢; tauto, hw⟩

/-- A name that is resolved though it was withdrawn was withdrawn before its announcement. -/
theorem revived_iff : Revived isNormalized es n ↔ Resolved isNormalized es n ∧ Withdrawn isNormalized es n := by
  constructor
  · rintro ⟨before, e, after, rfl, hw, pre, new, mid, found, post, path, ep, rfl, hnew, hfound, hgone⟩
    refine ⟨⟨before ++ e :: pre, new, mid, found, post, path, ep, ?_, hnew, hfound, hgone⟩, e, by simp, hw⟩
    rw [List.append_assoc, List.cons_append]
  · rintro ⟨⟨pre, new, mid, found, post, path, ep, rfl, hnew, hfound, hgone⟩, e, he, hw⟩
    rcases List.mem_append.mp he with hpre | htail
    · obtain ⟨before, after, rfl⟩ := List.mem_iff_append.mp hpre
      refine ⟨before, e, after ++ new :: (mid ++ found :: post), ?_, hw, after, new, mid, found, post, path, ep, rfl,
        hnew, hfound, hgone⟩
      rw [List.append_assoc, List.cons_append]
    · rcases List.mem_cons.mp htail with rfl | hafter
      · rw [hnew] at hw
        cases hw
      · exact absurd ⟨e, hafter, hw⟩ hgone

theorem sources_perm (s : Scan isNormalized) :
    s.sources.Perm (s.events.foldl (browseStep isNormalized maxSources) Browse.start).out := by
  obtain ⟨path, hpath⟩ := Option.isSome_iff_exists.mp s.started
  have hbrowse : browse isNormalized maxSources (some s.browser) s.events =
      (s.events.foldl (browseStep isNormalized maxSources) Browse.start).out := by
    unfold browse
    rw [Option.bind_some, hpath]
  rw [← hbrowse]
  exact List.mergeSort_perm _ _

theorem sort_sorted (out : SourceSet) : (names out.sort).Pairwise fun a b => utf8 a ≤ utf8 b := by
  have hsorted : out.sort.Pairwise fun a b => decide (utf8 a.name ≤ utf8 b.name) = true := by
    refine List.pairwise_mergeSort ?_ ?_ out
    · intro a b c hab hbc
      exact decide_eq_true (List.le_trans (of_decide_eq_true hab) (of_decide_eq_true hbc))
    · intro a b
      rcases List.le_total (utf8 a.name) (utf8 b.name) with h | h
      · simp [h]
      · simp [h]
  exact List.pairwise_map.mpr (hsorted.imp of_decide_eq_true)

end MdnsLemmas

open MdnsLemmas

/-- The list has the names that were resolved from an announcement without a withdrawal after
it, once each and in order, exactly when no name is announced again and resolved after it was
withdrawn: the browse remembers a withdrawal for the rest of the scan. -/
theorem lists_iff {isNormalized : String → Nat → Bool} (s : Scan isNormalized) :
    Lists s ↔ ∀ n, ¬ Revived isNormalized s.events n := by
  have hkeeps := browse_keeps s.within
  have hperm := sources_perm s
  have hnames : (names s.sources).Perm (names (s.events.foldl (browseStep isNormalized maxSources) Browse.start).out) :=
    hperm.map Source.name
  have hlisted (n : String) : n ∈ names s.sources ↔ Found isNormalized s.events n ∧ ¬ Withdrawn isNormalized s.events n := by
    rw [hnames.mem_iff]
    exact hkeeps.listed_iff n
  constructor
  · intro hlists n hrevived
    obtain ⟨hresolved, hw⟩ := revived_iff.mp hrevived
    exact ((hlisted n).mp ((hlists.mem_iff n).mpr hresolved)).2 hw
  · intro hnone
    refine ⟨?_, hnames.nodup_iff.mpr hkeeps.nodup, ?_, ?_⟩
    · intro n
      rw [hlisted]
      constructor
      · exact fun h => resolved_of_found s.answered h.1 h.2
      · exact fun h => ⟨found_of_resolved h, fun hw => hnone n (revived_iff.mpr ⟨h, hw⟩)⟩
    · rw [hperm.length_eq]
      exact hkeeps.small
    · exact sort_sorted _

/-! ## A service that comes back -/

/-- An announcement of the service `a`. -/
def itemNewBytes : Bytes :=
  [108, 4, 0, 1, 48, 0, 0, 0, 1, 0, 0, 0, 92, 0, 0, 0, 1, 1, 111, 0, 2, 0, 0, 0, 47, 98, 0, 0, 0, 0, 0, 0, 2, 1,
    115, 0, 36, 0, 0, 0] ++ utf8 "org.freedesktop.Avahi.ServiceBrowser" ++ [0, 0, 0, 0, 3, 1, 115, 0, 7, 0, 0, 0] ++
    utf8 "ItemNew" ++ [0, 8, 1, 103, 0, 6] ++ utf8 "iisssu" ++ [0, 0, 0, 0, 0, 2, 0, 0, 0, 0, 0, 0, 0, 1, 0, 0, 0,
    97, 0, 0, 0, 9, 0, 0, 0] ++ utf8 "_omt._tcp" ++ [0, 0, 0, 5, 0, 0, 0] ++ utf8 "local" ++ [0, 0, 0, 0, 0, 0, 0]

def itemNew : Message :=
  ⟨itemNewBytes, false, 4, 1, 0, some ⟨24, 26⟩, some ⟨40, 76⟩, some ⟨88, 95⟩, some ⟨101, 107⟩, ⟨112, 160⟩⟩

/-- Its withdrawal. -/
def itemRemoveBytes : Bytes :=
  [108, 4, 0, 1, 48, 0, 0, 0, 1, 0, 0, 0, 100, 0, 0, 0, 1, 1, 111, 0, 2, 0, 0, 0, 47, 98, 0, 0, 0, 0, 0, 0, 2, 1,
    115, 0, 36, 0, 0, 0] ++ utf8 "org.freedesktop.Avahi.ServiceBrowser" ++ [0, 0, 0, 0, 3, 1, 115, 0, 10, 0, 0, 0]
    ++ utf8 "ItemRemove" ++ [0, 0, 0, 0, 0, 0, 8, 1, 103, 0, 6] ++ utf8 "iisssu" ++ [0, 0, 0, 0, 0, 2, 0, 0, 0, 0,
    0, 0, 0, 1, 0, 0, 0, 97, 0, 0, 0, 9, 0, 0, 0] ++ utf8 "_omt._tcp" ++ [0, 0, 0, 5, 0, 0, 0] ++ utf8 "local" ++
    [0, 0, 0, 0, 0, 0, 0]

def itemRemove : Message :=
  ⟨itemRemoveBytes, false, 4, 1, 0, some ⟨24, 26⟩, some ⟨40, 76⟩, some ⟨88, 98⟩, some ⟨109, 115⟩, ⟨120, 168⟩⟩

/-- It is found by the resolver `/r`, at 192.0.2.10:6400. -/
def foundSignalBytes : Bytes :=
  [108, 4, 0, 1, 84, 0, 0, 0, 1, 0, 0, 0, 99, 0, 0, 0, 1, 1, 111, 0, 2, 0, 0, 0, 47, 114, 0, 0, 0, 0, 0, 0, 2, 1,
    115, 0, 37, 0, 0, 0] ++ utf8 "org.freedesktop.Avahi.ServiceResolver" ++ [0, 0, 0, 3, 1, 115, 0, 5, 0, 0, 0] ++
    utf8 "Found" ++ [0, 0, 0, 8, 1, 103, 0, 13] ++ utf8 "iissssisqaayu" ++ [0, 0, 0, 0, 0, 0, 2, 0, 0, 0, 0, 0, 0,
    0, 1, 0, 0, 0, 97, 0, 0, 0, 9, 0, 0, 0] ++ utf8 "_omt._tcp" ++ [0, 0, 0, 5, 0, 0, 0] ++ utf8 "local" ++ [0, 0,
    0, 1, 0, 0, 0, 104, 0, 0, 0, 0, 0, 0, 0, 10, 0, 0, 0] ++ utf8 "192.0.2.10" ++ [0, 0, 0, 25, 0, 0, 0, 0, 0, 0, 0,
    0, 0, 0]

def foundSignal : Message :=
  ⟨foundSignalBytes, false, 4, 1, 0, some ⟨24, 26⟩, some ⟨40, 77⟩, some ⟨88, 93⟩, some ⟨101, 114⟩, ⟨120, 204⟩⟩

/-- The resolver `/q` is created. -/
def firstReplyBytes : Bytes :=
  [108, 2, 0, 1, 7, 0, 0, 0, 1, 0, 0, 0, 15, 0, 0, 0, 5, 1, 117, 0, 1, 0, 0, 0, 8, 1, 103, 0, 1, 111, 0, 0, 2, 0, 0,
    0, 47, 113, 0]

def firstReply : Message :=
  ⟨firstReplyBytes, false, 2, 1, 1, none, none, none, some ⟨29, 30⟩, ⟨32, 39⟩⟩

/-- The resolver `/r` is created. -/
def secondReplyBytes : Bytes :=
  [108, 2, 0, 1, 7, 0, 0, 0, 1, 0, 0, 0, 15, 0, 0, 0, 5, 1, 117, 0, 1, 0, 0, 0, 8, 1, 103, 0, 1, 111, 0, 0, 2, 0, 0,
    0, 47, 114, 0]

def secondReply : Message :=
  ⟨secondReplyBytes, false, 2, 1, 1, none, none, none, some ⟨29, 30⟩, ⟨32, 39⟩⟩

/-- A service that is announced, withdrawn, announced again and then resolved. -/
def comesBack : List Event :=
  [⟨itemNew, some firstReply⟩, ⟨itemRemove, none⟩, ⟨itemNew, some secondReply⟩, ⟨foundSignal, none⟩]

namespace MdnsLemmas

/-- Names of one letter are normalised. -/
def always : String → Nat → Bool := fun _ _ => true

theorem hear_comesBack :
    hear always ⟨itemNew, some firstReply⟩ = .announced "a" "/q" ∧
      hear always ⟨itemRemove, none⟩ = .withdrawn "a" ∧
      hear always ⟨itemNew, some secondReply⟩ = .announced "a" "/r" ∧
      hear always ⟨foundSignal, none⟩ = .found (some "/r") "a" ⟨utf8 "192.0.2.10", 6400⟩ := by
  decide +kernel

theorem hear_first : hear always ⟨itemNew, some firstReply⟩ = .announced "a" "/q" := hear_comesBack.1
theorem hear_remove : hear always ⟨itemRemove, none⟩ = .withdrawn "a" := hear_comesBack.2.1
theorem hear_second : hear always ⟨itemNew, some secondReply⟩ = .announced "a" "/r" := hear_comesBack.2.2.1
theorem hear_foundSignal : hear always ⟨foundSignal, none⟩ = .found (some "/r") "a" ⟨utf8 "192.0.2.10", 6400⟩ :=
  hear_comesBack.2.2.2

/-- What holds at every place of a list, one place after the other. -/
theorem splits_cons {α : Type} {P : List α → α → Prop} {a : α} {l : List α} (hfirst : P [] a)
    (hrest : ∀ pre e post, l = pre ++ e :: post → P (a :: pre) e) :
    ∀ pre e post, a :: l = pre ++ e :: post → P pre e := by
  intro pre e post h
  cases pre with
  | nil =>
    cases h
    exact hfirst
  | cons b pre =>
    obtain ⟨hab, hrest'⟩ := List.cons.inj h
    subst hab
    exact hrest pre e post hrest'

theorem splits_nil {α : Type} {P : List α → α → Prop} : ∀ pre e post, ([] : List α) = pre ++ e :: post → P pre e := by
  intro pre e post h
  cases List.append_eq_nil_iff.mp h.symm |>.2

/-- What the browse remembers after each of the signals. -/
theorem comesBack_steps :
    browseStep always maxSources Browse.start ⟨itemNew, some firstReply⟩ = ⟨["/q"], [], []⟩ ∧
      browseStep always maxSources ⟨["/q"], [], []⟩ ⟨itemRemove, none⟩ = ⟨["/q"], ["a"], []⟩ ∧
      browseStep always maxSources ⟨["/q"], ["a"], []⟩ ⟨itemNew, some secondReply⟩ = ⟨["/q", "/r"], ["a"], []⟩ ∧
      browseStep always maxSources ⟨["/q", "/r"], ["a"], []⟩ ⟨foundSignal, none⟩ = ⟨["/q", "/r"], ["a"], []⟩ := by
  simp only [browseStep_eq, hear_first, hear_remove, hear_second, hear_foundSignal]
  decide +kernel

theorem comesBack_answered : Answered always comesBack := by
  have hsay {m : Event} {h : Heard} (hm : hear always m = h) (hno : ∀ path n ep, h ≠ .found path n ep)
      (pre : List Event) (path : Option String) (n : String) (ep : DirectTarget) (hf : hear always m = .found path n ep) :
      ∃ p, path = some p ∧ ∃ new ∈ pre, hear always new = .announced n p := absurd (hm.symm.trans hf) (hno path n ep)
  have hplaces : ∀ pre e post, comesBack = pre ++ e :: post → ∀ path n ep, hear always e = .found path n ep →
      ∃ p, path = some p ∧ ∃ new ∈ pre, hear always new = .announced n p := by
    refine splits_cons (hsay hear_first ?_ _) (splits_cons (hsay hear_remove ?_ _) (splits_cons (hsay hear_second ?_ _)
      (splits_cons ?_ splits_nil)))
    · rintro _ _ _ ⟨⟩
    · rintro _ _ _ ⟨⟩
    · rintro _ _ _ ⟨⟩
    · intro path n ep h
      cases (hear_foundSignal).symm.trans h
      exact ⟨"/r", rfl, ⟨itemNew, some secondReply⟩, by simp, hear_second⟩
  intro pre e post path n ep hsplit h
  exact hplaces pre e post hsplit path n ep h

theorem comesBack_within : Within always comesBack := by
  obtain ⟨h1, h2, h3, h4⟩ := comesBack_steps
  refine splits_cons ?_ (splits_cons ?_ (splits_cons ?_ (splits_cons ?_ splits_nil)))
  · unfold Stopped
    rw [hear_first]
    decide
  · unfold Stopped
    rw [hear_remove]
    dsimp only [List.foldl]
    rw [h1]
    decide
  · unfold Stopped
    rw [hear_second]
    dsimp only [List.foldl]
    rw [h1, h2]
    decide
  · unfold Stopped
    rw [hear_foundSignal]
    dsimp only [List.foldl]
    rw [h1, h2, h3]
    decide

end MdnsLemmas

def comesBackScan : Scan always where
  browser := firstReply
  events := comesBack
  started := by decide +kernel
  answered := comesBack_answered
  within := comesBack_within

/-- The service was resolved after its withdrawal, and is not listed. -/
theorem comesBack_lost :
    (∀ e ∈ comesBackScan.events, Message.parse e.m.raw = some e.m) ∧
      Resolved always comesBackScan.events "a" ∧ comesBackScan.sources = [] ∧ ¬ Lists comesBackScan := by
  have hsources : comesBackScan.sources = [] := by
    obtain ⟨h1, h2, h3, h4⟩ := comesBack_steps
    have hperm := sources_perm comesBackScan
    have hout : (comesBackScan.events.foldl (browseStep always maxSources) Browse.start).out = [] := by
      show (comesBack.foldl (browseStep always maxSources) Browse.start).out = []
      rw [comesBack, List.foldl_cons, h1, List.foldl_cons, h2, List.foldl_cons, h3, List.foldl_cons, h4, List.foldl_nil]
    rw [hout] at hperm
    exact List.Perm.eq_nil hperm
  have hresolved : Resolved always comesBackScan.events "a" := by
    refine ⟨[⟨itemNew, some firstReply⟩, ⟨itemRemove, none⟩], ⟨itemNew, some secondReply⟩, [], ⟨foundSignal, none⟩, [], "/r",
      _, rfl, hear_second, hear_foundSignal, ?_⟩
    rintro ⟨e, he, hw⟩
    cases List.mem_singleton.mp he
    cases hear_foundSignal.symm.trans hw
  refine ⟨by decide +kernel, hresolved, hsources, ?_⟩
  intro h
  have hlisted := (h.mem_iff "a").mpr hresolved
  rw [hsources] at hlisted
  cases hlisted

end OmtClient.Receiver.Mdns
