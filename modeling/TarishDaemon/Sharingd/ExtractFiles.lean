import Mathlib.Algebra.Order.BigOperators.Group.List
import Mathlib.Algebra.Order.Group.Nat
import TarishDaemon.Lib.Run
import TarishDaemon.Sharingd.UploadRound

/-!
# What unpacking leaves behind

The loop of `extract` in single rounds, with the files that it opened on record: the path,
and the size that the member states.  The record decides nothing (`extract_rounds`).

A round that fails has opened at most one file of its own, and all the files before that
are whole.  A member whose content ends early is removed again; a copy that fails leaves
what it has copied.  **What is left is whole exactly where no copy fails, and every file
that is too short can be removed** (`extract_whole_iff`).
-/

namespace Sharingd

open Rust

/-- A file that was made for a member, and what the member states. -/
structure MadeFile where
  path : Text
  size : Nat
  deriving DecidableEq, Repr

structure Unpack where
  reader : Odc.Reader
  total : Nat := 0
  members : Nat := 0
  names : List Text := []
  inbox : HashMap Text Bytes
  made : List MadeFile := []
  outcome : Option (Except ExtractError (List Text)) := none

namespace Unpack

def ends (u : Unpack) (result : Except ExtractError (List Text)) : Unpack :=
  { u with outcome := some result }

/-- Where the file of a member goes. -/
def dest (u : Unpack) (leaf : Text) : Text :=
  nonClobbering (fun path => decide (path ∈ u.inbox)) inboxDir leaf

/-- The checks before a file is opened, and the opening. -/
def refuses (u : Unpack) (env : ExtractEnv) (h : Odc.Header) (leaf : Text) :
    Option ExtractError :=
  if u.members + 1 > maxMembers then some .tooManyMembers
  else if h.fileSize > maxExtractedBytes - u.total then some (.tooLarge leaf h.fileSize)
  else if !env.opens (u.members + 1) || decide (u.dest leaf ∈ u.inbox) then some .notOpened
  else none

/-- What the disk takes of the content. -/
def stored (u : Unpack) (env : ExtractEnv) (data : Bytes) : Bytes :=
  data.take ((env.stops (u.members + 1)).getD data.length)

def make (u : Unpack) (env : ExtractEnv) (h : Odc.Header) (leaf : Text) (data : Bytes) : Unpack :=
  { u with
    members := u.members + 1
    inbox := u.inbox.insert (u.dest leaf) (u.stored env data)
    made := u.made ++ [⟨u.dest leaf, h.fileSize⟩] }

/-- The file is whole, and the reader goes on to the next member. -/
def next (u : Unpack) (leaf : Text) (r2 : Odc.Reader) (copied : Nat) (made : Unpack) : Unpack :=
  match r2.finish with
  | .error e => made.ends (.error (.cpio e))
  | .ok r3 =>
      { made with
        reader := r3
        total := u.total + copied
        names := u.names ++ (fileName (u.dest leaf)).toList }

/-- A member that is kept, with the reader at its content. -/
def member (u : Unpack) (env : ExtractEnv) (h : Odc.Header) (leaf : Text) (r1 : Odc.Reader) :
    Unpack :=
  match u.refuses env h leaf with
  | some e => u.ends (.error e)
  | none =>
      let (data, failed, r2) := r1.copy h.fileSize
      let made := u.make env h leaf data
      if failed || decide ((u.stored env data).length < data.length) then
        made.ends (.error .notCopied)
      else if data.length ≠ h.fileSize then
        { made with
          inbox := if env.removes (u.members + 1) then made.inbox.erase (u.dest leaf)
            else made.inbox }.ends (.error (.truncated leaf data.length h.fileSize))
      else u.next leaf r2 data.length made

/-- One round of the loop. -/
def round (env : ExtractEnv) (u : Unpack) (_ : Unit) : Option Unpack :=
  match u.outcome with
  | some _ => none
  | none =>
      match u.reader.readNext with
      | .error e => some (u.ends (.error (.cpio e)))
      | .ok (none, _) => some (u.ends (.ok u.names))
      | .ok (some h, r1) =>
          match memberLeaf h with
          | none =>
              match r1.finish with
              | .error e => some (u.ends (.error (.cpio e)))
              | .ok r2 => some { u with reader := r2 }
          | some leaf => some (u.member env h leaf r1)

/-! ## The rounds are the loop -/

section Loop

variable {env : ExtractEnv} {u : Unpack} {h : Odc.Header} {leaf : Text} {r1 r2 r3 : Odc.Reader}

theorem round_skip (running : u.outcome = none) (hnext : u.reader.readNext = .ok (some h, r1))
    (hskip : memberLeaf h = none) (hfinish : r1.finish = .ok r2) :
    round env u () = some { u with reader := r2 } := by
  simp only [round, running, hnext, hskip, hfinish]

theorem round_member (env : ExtractEnv) (running : u.outcome = none)
    (hnext : u.reader.readNext = .ok (some h, r1)) (hkeep : memberLeaf h = some leaf) :
    round env u () = some (u.member env h leaf r1) := by
  simp only [round, running, hnext, hkeep]

theorem member_refused {e : ExtractError} (hrefuses : u.refuses env h leaf = some e) :
    u.member env h leaf r1 = u.ends (.error e) := by
  rw [member, hrefuses]

theorem refuses_none (hmembers : ¬u.members + 1 > maxMembers)
    (hsize : ¬h.fileSize > maxExtractedBytes - u.total)
    (hopens : ¬(!env.opens (u.members + 1) || decide (u.dest leaf ∈ u.inbox)) = true) :
    u.refuses env h leaf = none := by
  rw [refuses, if_neg hmembers, if_neg hsize, if_neg hopens]

variable {data : Bytes} {failed : Bool}

theorem member_notCopied (hopen : u.refuses env h leaf = none)
    (hcopy : r1.copy h.fileSize = (data, failed, r2))
    (hbad : (failed || decide ((u.stored env data).length < data.length)) = true) :
    u.member env h leaf r1 = (u.make env h leaf data).ends (.error .notCopied) := by
  rw [member, hopen]
  simp only [hcopy, hbad, if_true]

theorem member_truncated (hopen : u.refuses env h leaf = none)
    (hcopy : r1.copy h.fileSize = (data, failed, r2))
    (hgood : ¬(failed || decide ((u.stored env data).length < data.length)) = true)
    (hshort : data.length ≠ h.fileSize) :
    u.member env h leaf r1 =
      { u.make env h leaf data with
        inbox := if env.removes (u.members + 1) then
            (u.make env h leaf data).inbox.erase (u.dest leaf)
          else (u.make env h leaf data).inbox }.ends
        (.error (.truncated leaf data.length h.fileSize)) := by
  rw [member, hopen]
  simp only [hcopy, if_neg hgood, if_pos hshort]

theorem member_whole (hopen : u.refuses env h leaf = none)
    (hcopy : r1.copy h.fileSize = (data, failed, r2))
    (hgood : ¬(failed || decide ((u.stored env data).length < data.length)) = true)
    (hwhole : ¬data.length ≠ h.fileSize) :
    u.member env h leaf r1 = u.next leaf r2 data.length (u.make env h leaf data) := by
  rw [member, hopen]
  simp only [hcopy, if_neg hgood, if_neg hwhole]

/-- **A run of rounds ends with what the loop returns.** -/
theorem extract_rounds (env : ExtractEnv) (u : Unpack) (running : u.outcome = none) :
    ∃ acts v, Lts.Run (Lts.ofPartial (round env)) u acts v ∧
      v.outcome = some (extractLoop env u.reader u.total u.members u.names u.inbox).1 ∧
      v.inbox = (extractLoop env u.reader u.total u.members u.names u.inbox).2 := by
  generalize hreader : u.reader = r
  generalize htotal : u.total = total
  generalize hmembers : u.members = members
  generalize hnames : u.names = names
  generalize hinbox : u.inbox = inbox
  have last : ∀ {u v : Unpack}, round env u () = some v →
      Lts.Run (Lts.ofPartial (round env)) u [()] v := fun hround => Lts.Run.nil.snoc hround
  fun_induction extractLoop env r total members names inbox generalizing u with
  | case1 r total members names inbox e hnext =>
      subst hreader htotal hmembers hnames hinbox
      exact ⟨_, u.ends (.error (.cpio e)), last (by simp only [round, running, hnext]), rfl, rfl⟩
  | case2 r total members names inbox r1 hnext =>
      subst hreader htotal hmembers hnames hinbox
      exact ⟨_, u.ends (.ok u.names), last (by simp only [round, running, hnext]), rfl, rfl⟩
  | case3 r total members names inbox h r1 hnext hskip e hfinish =>
      subst hreader htotal hmembers hnames hinbox
      exact ⟨_, u.ends (.error (.cpio e)),
        last (by simp only [round, running, hnext, hskip, hfinish]), rfl, rfl⟩
  | case4 r total members names inbox h r1 hnext hskip r2 hfinish ih =>
      subst hreader htotal hmembers hnames hinbox
      obtain ⟨acts, v, run, houtcome, hv⟩ := ih { u with reader := r2 } running rfl rfl rfl rfl rfl
      exact ⟨_, v, (last (round_skip running hnext hskip hfinish)).append run, houtcome, hv⟩
  | case5 r total members names inbox h r1 hnext leaf hkeep _ hmany =>
      subst hreader htotal hmembers hnames hinbox
      have hmember := round_member env running hnext hkeep
      rw [member_refused (by rw [refuses, if_pos hmany])] at hmember
      exact ⟨_, _, last hmember, rfl, rfl⟩
  | case6 r total members names inbox h r1 hnext leaf hkeep _ hmany hlarge =>
      subst hreader htotal hmembers hnames hinbox
      have hmember := round_member env running hnext hkeep
      rw [member_refused (by rw [refuses, if_neg hmany, if_pos hlarge])] at hmember
      exact ⟨_, _, last hmember, rfl, rfl⟩
  | case7 r total members names inbox h r1 hnext leaf hkeep _ hmany hlarge _ hopens =>
      subst hreader htotal hmembers hnames hinbox
      have hmember := round_member env running hnext hkeep
      rw [member_refused (by
        rw [refuses, if_neg hmany, if_neg hlarge]
        exact if_pos hopens)] at hmember
      exact ⟨_, _, last hmember, rfl, rfl⟩
  | case8 r total members names inbox h r1 hnext leaf hkeep _ hmany hlarge _ hopens data failed r2
      hcopy _ _ hbad =>
      subst hreader htotal hmembers hnames hinbox
      have hmember := round_member env running hnext hkeep
      rw [member_notCopied (refuses_none hmany hlarge hopens) hcopy hbad] at hmember
      exact ⟨_, _, last hmember, rfl, rfl⟩
  | case9 r total members names inbox h r1 hnext leaf hkeep _ hmany hlarge _ hopens data failed r2
      hcopy _ _ hgood hshort =>
      subst hreader htotal hmembers hnames hinbox
      have hmember := round_member env running hnext hkeep
      rw [member_truncated (refuses_none hmany hlarge hopens) hcopy hgood hshort] at hmember
      exact ⟨_, _, last hmember, rfl, rfl⟩
  | case10 r total members names inbox h r1 hnext leaf hkeep _ hmany hlarge _ hopens data failed r2
      hcopy _ _ hgood hwhole e hfinish =>
      subst hreader htotal hmembers hnames hinbox
      have hmember := round_member env running hnext hkeep
      rw [member_whole (refuses_none hmany hlarge hopens) hcopy hgood hwhole, next, hfinish]
        at hmember
      exact ⟨_, _, last hmember, rfl, rfl⟩
  | case11 r total members names inbox h r1 hnext leaf hkeep _ hmany hlarge _ hopens data failed r2
      hcopy _ _ hgood hwhole r3 hfinish ih =>
      subst hreader htotal hmembers hnames hinbox
      have hmember := round_member env running hnext hkeep
      rw [member_whole (refuses_none hmany hlarge hopens) hcopy hgood hwhole, next, hfinish]
        at hmember
      obtain ⟨acts, v, run, houtcome, hv⟩ := ih
        { u.make env h leaf data with
          reader := r3
          total := u.total + data.length
          names := u.names ++ (fileName (u.dest leaf)).toList } running rfl rfl rfl rfl rfl
      exact ⟨_, v, (last hmember).append run, houtcome, hv⟩

end Loop

/-! ## What a round can do -/

/-- The copy of a member: neither the reader nor the disk fails, and what turns out to be too
short can be removed. -/
def CopiesWell (env : ExtractEnv) (u : Unpack) (h : Odc.Header) (r1 : Odc.Reader) : Prop :=
  (r1.copy h.fileSize).2.1 = false ∧
    (u.stored env (r1.copy h.fileSize).1).length = (r1.copy h.fileSize).1.length ∧
    ((r1.copy h.fileSize).1.length ≠ h.fileSize → env.removes (u.members + 1) = true)

/-- Whatever member the round opens a file for is copied well. -/
def Spares (env : ExtractEnv) (u : Unpack) : Prop :=
  ∀ h r1 leaf, u.reader.readNext = .ok (some h, r1) → memberLeaf h = some leaf →
    u.refuses env h leaf = none → CopiesWell env u h r1

/-- A round with a file of its own. -/
structure Makes (env : ExtractEnv) (u : Unpack) (h : Odc.Header) (leaf : Text) (r1 : Odc.Reader)
    (u' : Unpack) : Prop where
  made : u'.made = u.made ++ [⟨u.dest leaf, h.fileSize⟩]
  other : ∀ path, path ≠ u.dest leaf → u'.inbox.lookup path = u.inbox.lookup path
  within : ∀ data, u'.inbox.lookup (u.dest leaf) = some data → data.length ≤ h.fileSize
  whole_iff : (∀ data, u'.inbox.lookup (u.dest leaf) = some data → data.length = h.fileSize) ↔
    CopiesWell env u h r1
  running : u'.outcome = none → u'.members = u.members + 1 ∧ u'.total = u.total + h.fileSize ∧
    u.dest leaf ∈ u'.inbox

/-- A round without one. -/
structure Passes (u u' : Unpack) : Prop where
  made : u'.made = u.made
  inbox : u'.inbox = u.inbox
  members : u'.members = u.members
  total : u'.total = u.total

section Round

variable {env : ExtractEnv} {u u' : Unpack} {h : Odc.Header} {leaf : Text} {r1 : Odc.Reader}

theorem ends_passes (u : Unpack) (result : Except ExtractError (List Text)) :
    Passes u (u.ends result) :=
  ⟨rfl, rfl, rfl, rfl⟩

theorem fileSize_pos (hkeep : memberLeaf h = some leaf) : 0 < h.fileSize := by
  unfold memberLeaf at hkeep
  split at hkeep
  · cases hkeep
  · dsimp only at hkeep
    split at hkeep
    · cases hkeep
    next hskip =>
      simp only [not_or] at hskip
      exact Nat.pos_of_ne_zero hskip.2.2

theorem copy_length_le {r r2 : Odc.Reader} {size : Nat} {data : Bytes} {failed : Bool}
    (hcopy : r.copy size = (data, failed, r2)) : data.length ≤ size := by
  unfold Odc.Reader.copy at hcopy
  split at hcopy
  · cases hcopy
    exact Nat.zero_le _
  · cases hcopy
    rw [List.length_take]
    omega

/-- A reader that fails has not given everything. -/
theorem copy_failed {r r2 : Odc.Reader} {size : Nat} {data : Bytes} (hpos : 0 < size)
    (hcopy : r.copy size = (data, true, r2)) : data.length < size := by
  unfold Odc.Reader.copy at hcopy
  split at hcopy
  · cases hcopy
    exact hpos
  · obtain ⟨rfl, hfailed⟩ := Prod.mk.inj hcopy
    have hfailed := (Prod.mk.inj hfailed).1
    rw [Bool.and_eq_true, decide_eq_true_eq] at hfailed
    rw [List.length_take]
    omega

theorem stored_length_le (u : Unpack) (env : ExtractEnv) (data : Bytes) :
    (u.stored env data).length ≤ data.length := by
  rw [stored, List.length_take]
  omega

theorem lookup_make (data : Bytes) :
    (u.make env h leaf data).inbox.lookup (u.dest leaf) = some (u.stored env data) :=
  AList.lookup_insert _

theorem lookup_make_ne {path : Text} (hne : path ≠ u.dest leaf) (data : Bytes) :
    (u.make env h leaf data).inbox.lookup path = u.inbox.lookup path :=
  AList.lookup_insert_ne hne

section Member

variable {data : Bytes} {failed : Bool} {r2 : Odc.Reader}

theorem copiesWell_iff (hcopy : r1.copy h.fileSize = (data, failed, r2)) :
    CopiesWell env u h r1 ↔ failed = false ∧ (u.stored env data).length = data.length ∧
      (data.length ≠ h.fileSize → env.removes (u.members + 1) = true) := by
  rw [CopiesWell, hcopy]

/-- A round that leaves in the inbox what it made. -/
theorem Makes.of_make (hcopy : r1.copy h.fileSize = (data, failed, r2))
    (hmade : u'.made = (u.make env h leaf data).made)
    (hinbox : u'.inbox = (u.make env h leaf data).inbox)
    (hiff : (u.stored env data).length = h.fileSize ↔ CopiesWell env u h r1)
    (hrunning : u'.outcome = none → u'.members = u.members + 1 ∧
      u'.total = u.total + h.fileSize ∧ u.dest leaf ∈ u'.inbox) : Makes env u h leaf r1 u' := by
  have hle := copy_length_le hcopy
  have hstored := stored_length_le u env data
  refine ⟨hmade, fun path hne => ?_, fun d hd => ?_, ?_, hrunning⟩
  · rw [hinbox]
    exact lookup_make_ne hne data
  · rw [hinbox, lookup_make] at hd
    cases hd
    omega
  · rw [← hiff, hinbox, lookup_make]
    simp

/-- The copy fails, and what it has copied stays. -/
theorem member_makes_notCopied (hkeep : memberLeaf h = some leaf)
    (hopen : u.refuses env h leaf = none) (hcopy : r1.copy h.fileSize = (data, failed, r2))
    (hbad : (failed || decide ((u.stored env data).length < data.length)) = true) :
    Makes env u h leaf r1 (u.member env h leaf r1) := by
  have hpos := fileSize_pos hkeep
  have hle := copy_length_le hcopy
  have hstored := stored_length_le u env data
  have hshort : failed = true ∨ (u.stored env data).length < data.length := by
    simpa using hbad
  rw [member_notCopied hopen hcopy hbad]
  refine .of_make hcopy rfl rfl ?_ (fun hnone => by cases hnone)
  rw [copiesWell_iff hcopy]
  constructor
  · intro hsize
    rcases hshort with hfailed | hless
    · have := copy_failed hpos (hfailed ▸ hcopy)
      omega
    · omega
  · rintro ⟨hgood, hall, -⟩
    rcases hshort with hfailed | hless
    · rw [hgood] at hfailed
      cases hfailed
    · omega

/-- The content ends early; the file is removed again where it can be. -/
theorem member_makes_truncated (hopen : u.refuses env h leaf = none)
    (hcopy : r1.copy h.fileSize = (data, failed, r2))
    (hgood : ¬(failed || decide ((u.stored env data).length < data.length)) = true)
    (hshort : data.length ≠ h.fileSize) :
    Makes env u h leaf r1 (u.member env h leaf r1) := by
  have hle := copy_length_le hcopy
  have hstored := stored_length_le u env data
  rw [member_truncated hopen hcopy hgood hshort]
  rw [Bool.or_eq_true, not_or, Bool.not_eq_true, decide_eq_true_eq] at hgood
  cases hremoves : env.removes (u.members + 1) with
  | false =>
      simp only [Bool.false_eq_true, if_false]
      refine .of_make hcopy rfl rfl ?_ (fun hnone => by cases hnone)
      rw [copiesWell_iff hcopy, hremoves]
      constructor
      · intro hsize
        omega
      · rintro ⟨-, -, hnever⟩
        exact absurd (hnever hshort) (by decide)
  | true =>
      have hgone : (((u.make env h leaf data).inbox.erase (u.dest leaf)).lookup
          (u.dest leaf)) = none := AList.lookup_erase _ _
      refine ⟨rfl, fun path hne => ?_, fun d hd => ?_, ?_, fun hnone => by cases hnone⟩
      · exact (AList.lookup_erase_ne hne).trans (lookup_make_ne hne data)
      · exact absurd (hgone.symm.trans hd) (by simp)
      · rw [copiesWell_iff hcopy]
        refine ⟨fun _ => ⟨hgood.1, by omega, fun _ => hremoves⟩, fun _ d hd => ?_⟩
        exact absurd (hgone.symm.trans hd) (by simp)

theorem member_makes_whole (hopen : u.refuses env h leaf = none)
    (hcopy : r1.copy h.fileSize = (data, failed, r2))
    (hgood : ¬(failed || decide ((u.stored env data).length < data.length)) = true)
    (hwhole : ¬data.length ≠ h.fileSize) :
    Makes env u h leaf r1 (u.member env h leaf r1) := by
  have hstored := stored_length_le u env data
  have hsize : data.length = h.fileSize := not_not.mp hwhole
  rw [member_whole hopen hcopy hgood hwhole, next]
  rw [Bool.or_eq_true, not_or, Bool.not_eq_true, decide_eq_true_eq] at hgood
  have hall : (u.stored env data).length = data.length := by omega
  have hiff : (u.stored env data).length = h.fileSize ↔ CopiesWell env u h r1 := by
    rw [copiesWell_iff hcopy, hall]
    exact ⟨fun _ => ⟨hgood.1, rfl, fun hne => absurd hsize hne⟩, fun _ => hsize⟩
  split
  next e hfinish =>
    exact .of_make hcopy rfl rfl hiff (fun hnone => by cases hnone)
  next r3 hfinish =>
    refine .of_make hcopy rfl rfl hiff fun _ => ?_
    refine ⟨rfl, ?_, (AList.mem_insert _).mpr (.inl rfl)⟩
    rw [← hsize]

/-- **A member that is opened**: its file is whole exactly where it is copied well. -/
theorem member_makes (hkeep : memberLeaf h = some leaf) (hopen : u.refuses env h leaf = none) :
    Makes env u h leaf r1 (u.member env h leaf r1) := by
  obtain ⟨data, failed, r2, hcopy⟩ : ∃ data failed r2, r1.copy h.fileSize = (data, failed, r2) :=
    ⟨_, _, _, rfl⟩
  by_cases hbad : (failed || decide ((u.stored env data).length < data.length)) = true
  · exact member_makes_notCopied hkeep hopen hcopy hbad
  · by_cases hshort : data.length ≠ h.fileSize
    · exact member_makes_truncated hopen hcopy hbad hshort
    · exact member_makes_whole hopen hcopy hbad hshort

end Member

/-- **Inversion.** -/
theorem round_cases (hround : round env u () = some u') :
    (Passes u u' ∧ Spares env u) ∨
      ∃ h r1 leaf, u.reader.readNext = .ok (some h, r1) ∧ memberLeaf h = some leaf ∧
        u.refuses env h leaf = none ∧ Makes env u h leaf r1 u' := by
  unfold round at hround
  split at hround
  · cases hround
  split at hround
  next e hnext =>
    cases hround
    refine .inl ⟨ends_passes u _, fun h r1 leaf hread => ?_⟩
    rw [hnext] at hread
    cases hread
  next r1 hnext =>
    cases hround
    refine .inl ⟨ends_passes u _, fun h r1 leaf hread => ?_⟩
    rw [hnext] at hread
    cases hread
  next h r1 hnext =>
    cases hleaf : memberLeaf h with
    | none =>
        have hspares : Spares env u := by
          intro h' r1' leaf hread hkeep
          rw [hnext] at hread
          cases hread
          rw [hleaf] at hkeep
          cases hkeep
        rw [hleaf] at hround
        dsimp only at hround
        split at hround
        · cases hround
          exact .inl ⟨ends_passes u _, hspares⟩
        · cases hround
          exact .inl ⟨⟨rfl, rfl, rfl, rfl⟩, hspares⟩
    | some leaf =>
        rw [hleaf] at hround
        cases hround
        cases hrefuses : u.refuses env h leaf with
        | some e =>
            rw [member_refused hrefuses]
            refine .inl ⟨ends_passes u _, fun h' r1' leaf' hread hkeep hopen => ?_⟩
            rw [hnext] at hread
            cases hread
            rw [hleaf] at hkeep
            cases hkeep
            rw [hrefuses] at hopen
            cases hopen
        | none => exact .inr ⟨h, r1, leaf, hnext, hleaf, hrefuses, member_makes hleaf hrefuses⟩

end Round

/-! ## What is left -/

/-- The files that were not there before. -/
def left (inbox₀ inbox : HashMap Text Bytes) : List Text :=
  inbox.keys.filter fun path => decide (path ∉ inbox₀)

/-- Unpacking left no part of a file, touched nothing that was there, and kept to its
budgets. -/
structure Intact (inbox₀ : HashMap Text Bytes) (u : Unpack) : Prop where
  whole : ∀ path ∈ left inbox₀ u.inbox, ∃ m ∈ u.made, m.path = path ∧
    (u.inbox.lookup path).map List.length = some m.size
  old : ∀ path ∈ inbox₀, u.inbox.lookup path = inbox₀.lookup path
  bytes : ((left inbox₀ u.inbox).map fun path => ((u.inbox.lookup path).getD []).length).sum ≤
    maxExtractedBytes
  files : (left inbox₀ u.inbox).length ≤ maxMembers

/-- **The invariant.**  The record is complete, each file is under a path of its own that was
free, no file is too long, and what the members state is within the budgets. -/
structure Ledger (inbox₀ : HashMap Text Bytes) (u : Unpack) : Prop where
  old : ∀ path ∈ inbox₀, u.inbox.lookup path = inbox₀.lookup path
  fresh : ∀ m ∈ u.made, m.path ∉ inbox₀
  complete : ∀ path ∈ u.inbox, path ∉ inbox₀ → ∃ m ∈ u.made, m.path = path
  apart : (u.made.map MadeFile.path).Nodup
  within : ∀ m ∈ u.made, ∀ data, u.inbox.lookup m.path = some data → data.length ≤ m.size
  bytes : (u.made.map MadeFile.size).sum ≤ maxExtractedBytes
  files : u.made.length ≤ maxMembers
  running : u.outcome = none → u.members = u.made.length ∧
    u.total = (u.made.map MadeFile.size).sum ∧ ∀ m ∈ u.made, m.path ∈ u.inbox

/-- Every file that was made is whole or gone. -/
def Whole (u : Unpack) : Prop :=
  ∀ m ∈ u.made, ∀ data, u.inbox.lookup m.path = some data → data.length = m.size

section Left

variable {env : ExtractEnv} {inbox₀ : HashMap Text Bytes} {u u' : Unpack} {h : Odc.Header}
  {leaf : Text} {r1 : Odc.Reader}

theorem round_running (hround : round env u () = some u') : u.outcome = none := by
  unfold round at hround
  split at hround
  · cases hround
  · assumption

/-- What is opened is within the budgets, and its path is free. -/
theorem refuses_eq_none (hopen : u.refuses env h leaf = none) :
    u.members < maxMembers ∧ h.fileSize ≤ maxExtractedBytes - u.total ∧
      u.dest leaf ∉ u.inbox := by
  unfold refuses at hopen
  split at hopen
  · cases hopen
  split at hopen
  · cases hopen
  split at hopen
  · cases hopen
  next hmany hlarge hopens =>
    simp only [Bool.or_eq_true, not_or, decide_eq_true_eq] at hopens
    exact ⟨by omega, by omega, hopens.2⟩

theorem Ledger.passes (ledger : Ledger inbox₀ u) (running : u.outcome = none)
    (hpasses : Passes u u') : Ledger inbox₀ u' := by
  obtain ⟨hmade, hinbox, hmembers, htotal⟩ := hpasses
  constructor
  · rw [hinbox]
    exact ledger.old
  · rw [hmade]
    exact ledger.fresh
  · rw [hinbox, hmade]
    exact ledger.complete
  · rw [hmade]
    exact ledger.apart
  · rw [hinbox, hmade]
    exact ledger.within
  · rw [hmade]
    exact ledger.bytes
  · rw [hmade]
    exact ledger.files
  · intro _
    rw [hmembers, htotal, hmade, hinbox]
    exact ledger.running running

theorem Ledger.makes (ledger : Ledger inbox₀ u) (running : u.outcome = none)
    (hopen : u.refuses env h leaf = none) (hmakes : Makes env u h leaf r1 u') :
    Ledger inbox₀ u' := by
  obtain ⟨hmembers, htotal, hthere⟩ := ledger.running running
  obtain ⟨hmany, hlarge, hfree⟩ := refuses_eq_none hopen
  have hapart : ∀ m ∈ u.made, m.path ≠ u.dest leaf := fun m hm hpath =>
    hfree (hpath ▸ hthere m hm)
  have hnew : u.dest leaf ∉ inbox₀ := by
    intro hin
    refine hfree (AList.lookup_isSome.mp ?_)
    rw [ledger.old _ hin]
    exact AList.lookup_isSome.mpr hin
  have hbytes := ledger.bytes
  constructor
  · intro path hpath
    rw [hmakes.other path (fun he => hnew (he ▸ hpath))]
    exact ledger.old path hpath
  · rw [hmakes.made]
    intro m hm
    rcases List.mem_append.mp hm with hm | hm
    · exact ledger.fresh m hm
    · obtain rfl := List.mem_singleton.mp hm
      exact hnew
  · intro path hpath hold
    rw [hmakes.made]
    by_cases he : path = u.dest leaf
    · exact ⟨_, List.mem_append_right _ (List.mem_singleton.mpr rfl), he.symm⟩
    · rw [← AList.lookup_isSome, hmakes.other path he, AList.lookup_isSome] at hpath
      obtain ⟨m, hm, hmpath⟩ := ledger.complete path hpath hold
      exact ⟨m, List.mem_append_left _ hm, hmpath⟩
  · rw [hmakes.made, List.map_append, List.map_singleton]
    refine List.nodup_append.mpr ⟨ledger.apart, List.nodup_singleton _, ?_⟩
    intro a ha b hb
    obtain ⟨m, hm, rfl⟩ := List.mem_map.mp ha
    obtain rfl := List.mem_singleton.mp hb
    exact hapart m hm
  · rw [hmakes.made]
    intro m hm data hdata
    rcases List.mem_append.mp hm with hm | hm
    · rw [hmakes.other m.path (hapart m hm)] at hdata
      exact ledger.within m hm data hdata
    · obtain rfl := List.mem_singleton.mp hm
      exact hmakes.within data hdata
  · rw [hmakes.made, List.map_append, List.sum_append, List.map_singleton, List.sum_singleton]
    dsimp only
    omega
  · rw [hmakes.made, List.length_append, List.length_singleton]
    omega
  · intro hrunning
    obtain ⟨hmembers', htotal', hdest⟩ := hmakes.running hrunning
    rw [hmakes.made, List.map_append, List.sum_append, List.map_singleton, List.sum_singleton,
      List.length_append, List.length_singleton]
    refine ⟨by omega, by rw [htotal', htotal], fun m hm => ?_⟩
    rcases List.mem_append.mp hm with hm | hm
    · rw [← AList.lookup_isSome, hmakes.other m.path (hapart m hm), AList.lookup_isSome]
      exact hthere m hm
    · obtain rfl := List.mem_singleton.mp hm
      exact hdest

/-- One round. -/
theorem Ledger.round (ledger : Ledger inbox₀ u) (hround : round env u () = some u') :
    Ledger inbox₀ u' := by
  have running := round_running hround
  rcases round_cases hround with ⟨hpasses, -⟩ | ⟨h, r1, leaf, -, -, hopen, hmakes⟩
  · exact ledger.passes running hpasses
  · exact ledger.makes running hopen hmakes

/-- **One round, from whole files: they are whole after it exactly where the round spares what
it makes.** -/
theorem Whole.round_iff (ledger : Ledger inbox₀ u) (hround : round env u () = some u') :
    Whole u' ↔ Whole u ∧ Spares env u := by
  have running := round_running hround
  rcases round_cases hround with ⟨⟨hmade, hinbox, -, -⟩, hspares⟩ |
    ⟨h, r1, leaf, hnext, hkeep, hopen, hmakes⟩
  · rw [Whole, hmade, hinbox]
    exact ⟨fun hwhole => ⟨hwhole, hspares⟩, fun hboth => hboth.1⟩
  · obtain ⟨-, -, hthere⟩ := ledger.running running
    obtain ⟨-, -, hfree⟩ := refuses_eq_none hopen
    have hother : ∀ m ∈ u.made, u'.inbox.lookup m.path = u.inbox.lookup m.path := fun m hm =>
      hmakes.other m.path fun hpath => hfree (hpath ▸ hthere m hm)
    have hspares : Spares env u ↔ CopiesWell env u h r1 := by
      refine ⟨fun hall => hall h r1 leaf hnext hkeep hopen, fun hwell h' r1' leaf' hnext' _ _ => ?_⟩
      rw [hnext] at hnext'
      cases hnext'
      exact hwell
    rw [hspares, ← hmakes.whole_iff, Whole, hmakes.made]
    constructor
    · refine fun hall => ⟨fun m hm data hdata => ?_, fun data hdata => ?_⟩
      · exact hall m (List.mem_append_left _ hm) data ((hother m hm).trans hdata)
      · exact hall ⟨u.dest leaf, h.fileSize⟩
          (List.mem_append_right _ (List.mem_singleton.mpr rfl)) data hdata
    · rintro ⟨hold, hdest⟩ m hm data hdata
      rcases List.mem_append.mp hm with hm | hm
      · exact hold m hm data ((hother m hm).symm.trans hdata)
      · obtain rfl := List.mem_singleton.mp hm
        exact hdest data hdata

/-- What is left takes no more than the members state. -/
theorem Ledger.left_bytes (ledger : Ledger inbox₀ u) :
    ((left inbox₀ u.inbox).map fun path => ((u.inbox.lookup path).getD []).length).sum ≤
      (u.made.map MadeFile.size).sum ∧ (left inbox₀ u.inbox).length ≤ u.made.length := by
  have hnodup : (left inbox₀ u.inbox).Nodup := u.inbox.nodupKeys.filter _
  have hsub : left inbox₀ u.inbox ⊆ u.made.map MadeFile.path := by
    intro path hpath
    obtain ⟨hin, hnew⟩ := List.mem_filter.mp hpath
    obtain ⟨m, hm, rfl⟩ := ledger.complete path hin (of_decide_eq_true hnew)
    exact List.mem_map_of_mem hm
  have hsubperm := List.subperm_of_subset hnodup hsub
  constructor
  · obtain ⟨paths, hperm, hsublist⟩ := hsubperm
    calc _ = (paths.map fun path => ((u.inbox.lookup path).getD []).length).sum :=
          (hperm.map _).sum_nat.symm
      _ ≤ ((u.made.map MadeFile.path).map fun path => ((u.inbox.lookup path).getD []).length).sum :=
          (hsublist.map _).sum_le_sum fun _ _ => Nat.zero_le _
      _ ≤ (u.made.map MadeFile.size).sum := by
        rw [List.map_map]
        refine List.sum_le_sum fun m hm => ?_
        dsimp only [Function.comp_apply]
        cases hdata : u.inbox.lookup m.path with
        | none => exact Nat.zero_le _
        | some data => exact ledger.within m hm data hdata
  · exact hsubperm.length_le.trans (List.length_map _).le

theorem Ledger.intact_iff (ledger : Ledger inbox₀ u) : Intact inbox₀ u ↔ Whole u := by
  constructor
  · intro hintact m hm data hdata
    have hin : m.path ∈ u.inbox := AList.lookup_isSome.mp (by rw [hdata]; rfl)
    obtain ⟨m', hm', hpath, hsize⟩ := hintact.whole m.path
      (List.mem_filter.mpr ⟨hin, decide_eq_true (ledger.fresh m hm)⟩)
    rw [hdata, Option.map_some, Option.some.injEq] at hsize
    rw [hsize, List.inj_on_of_nodup_map ledger.apart hm' hm hpath]
  · intro hwhole
    obtain ⟨hbytes, hfiles⟩ := ledger.left_bytes
    refine ⟨fun path hpath => ?_, ledger.old, hbytes.trans ledger.bytes, hfiles.trans ledger.files⟩
    obtain ⟨hin, hnew⟩ := List.mem_filter.mp hpath
    obtain ⟨m, hm, rfl⟩ := ledger.complete path hin (of_decide_eq_true hnew)
    obtain ⟨data, hdata⟩ := Option.isSome_iff_exists.mp (AList.lookup_isSome.mpr hin)
    exact ⟨m, hm, rfl, by rw [hdata, Option.map_some, hwhole m hm data hdata]⟩

end Left

/-! ## The whole of `extract` -/

/-- `extract` from the archive's path: an archive that cannot be opened is `none`. -/
def extractFile (env : ExtractEnv) (gunzip unframe : Bytes → Source) (archive : Option Bytes)
    (inbox : HashMap Text Bytes) : Except ExtractError (List Text) × HashMap Text Bytes :=
  match archive with
  | none => (.error .notOpened, inbox)
  | some archive => extract env gunzip unframe archive inbox

def start (gunzip unframe : Bytes → Source) (archive : Option Bytes)
    (inbox : HashMap Text Bytes) : Unpack :=
  match archive with
  | none => { reader := .before ⟨[], true⟩, inbox := inbox, outcome := some (.error .notOpened) }
  | some archive =>
      let inner := if archive.take 2 = [0x1f, 0x8b] then gunzip archive else unframe archive
      { reader := .before inner, inbox := inbox }

variable {gunzip unframe : Bytes → Source} {archive : Option Bytes} {inbox : HashMap Text Bytes}

theorem ledger_start : Ledger inbox (start gunzip unframe archive inbox) := by
  have hmade : (start gunzip unframe archive inbox).made = [] := by
    cases archive <;> rfl
  have hinbox : (start gunzip unframe archive inbox).inbox = inbox := by
    cases archive <;> rfl
  have hmembers : (start gunzip unframe archive inbox).members = 0 := by
    cases archive <;> rfl
  have htotal : (start gunzip unframe archive inbox).total = 0 := by
    cases archive <;> rfl
  constructor
  · intro path _
    rw [hinbox]
  · simp [hmade]
  · intro path hpath hnew
    rw [hinbox] at hpath
    exact absurd hpath hnew
  · simp [hmade]
  · simp [hmade]
  · simp [hmade]
  · simp [hmade]
  · simp [hmade, hmembers, htotal]

theorem extractFile_ledger (env : ExtractEnv) (gunzip unframe : Bytes → Source)
    (archive : Option Bytes) (inbox : HashMap Text Bytes) :
    ∃ acts v, Lts.Run (Lts.ofPartial (round env)) (start gunzip unframe archive inbox) acts v ∧
      v.outcome = some (extractFile env gunzip unframe archive inbox).1 ∧
      v.inbox = (extractFile env gunzip unframe archive inbox).2 ∧ Ledger inbox v := by
  obtain ⟨acts, v, run, houtcome, hinbox⟩ : ∃ acts v,
      Lts.Run (Lts.ofPartial (round env)) (start gunzip unframe archive inbox) acts v ∧
      v.outcome = some (extractFile env gunzip unframe archive inbox).1 ∧
      v.inbox = (extractFile env gunzip unframe archive inbox).2 := by
    cases archive with
    | none => exact ⟨[], _, .nil, rfl, rfl⟩
    | some archive => exact extract_rounds env (start gunzip unframe (some archive) inbox) rfl
  exact ⟨acts, v, run, houtcome, hinbox, run.invariant (Ledger inbox) ledger_start
    fun _ _ _ ledger hround => ledger.round hround⟩

/-- What was there before is there as it was. -/
theorem extractFile_old {env : ExtractEnv} {path : Text} (h : path ∈ inbox) :
    (extractFile env gunzip unframe archive inbox).2.lookup path = inbox.lookup path := by
  obtain ⟨acts, v, -, -, hinbox, ledger⟩ := extractFile_ledger env gunzip unframe archive inbox
  rw [← hinbox]
  exact ledger.old path h

/-- **`extract` leaves every file whole and touches no other exactly where, in every round, the
member it opens a file for is copied without an error, and a file that turns out too short can
be removed.** -/
theorem extract_whole_iff (env : ExtractEnv) (gunzip unframe : Bytes → Source)
    (archive : Option Bytes) (inbox : HashMap Text Bytes) :
    ∃ acts v, Lts.Run (Lts.ofPartial (round env)) (start gunzip unframe archive inbox) acts v ∧
      v.outcome = some (extractFile env gunzip unframe archive inbox).1 ∧
      v.inbox = (extractFile env gunzip unframe archive inbox).2 ∧
      (Intact inbox v ↔
        Lts.Run (Lts.Restrict (Lts.ofPartial (round env)) fun u _ => Spares env u)
          (start gunzip unframe archive inbox) acts v) := by
  obtain ⟨acts, v, run, houtcome, hinbox, hledger⟩ :=
    extractFile_ledger env gunzip unframe archive inbox
  refine ⟨acts, v, run, houtcome, hinbox, hledger.intact_iff.trans ?_⟩
  refine Lts.Run.restrict_iff_last (Ledger inbox) Whole ledger_start ?_
    (fun _ _ _ ledger hround => ledger.round hround)
    (fun _ _ _ ledger hround hwhole => ((Whole.round_iff ledger hround).mp hwhole).1)
    (fun _ _ _ ledger hwhole hround => ?_) run
  · intro m hm
    cases archive <;> cases hm
  · rw [Whole.round_iff ledger hround]
    exact and_iff_right hwhole

/-- Nothing follows the end. -/
theorem run_ended {env : ExtractEnv} {u v : Unpack} {acts : List Unit} (h : u.outcome ≠ none)
    (run : Lts.Run (Lts.ofPartial (round env)) u acts v) : v = u := by
  cases acts with
  | nil => exact run.end_unique .nil
  | cons act acts =>
      obtain ⟨m, first, -⟩ := run.uncons
      exact absurd (round_running first) h

theorem run_lastRound {env : ExtractEnv} {u m v : Unpack} {acts : List Unit} (h : v.outcome ≠ none)
    (running : u.outcome = none) (run : Lts.Run (Lts.ofPartial (round env)) u acts v)
    (hround : round env u () = some m) (hended : m.outcome ≠ none) : v = m := by
  cases acts with
  | nil => exact absurd (run.end_unique .nil ▸ running) h
  | cons act acts =>
      obtain ⟨m', first, rest⟩ := run.uncons
      obtain rfl : m = m' := Option.some.inj (hround.symm.trans first)
      exact run_ended hended rest

/-- A disk with room for one byte. -/
def fullDisk : ExtractEnv :=
  { opens := fun _ => true, stops := fun _ => some 1, removes := fun _ => true }

/-- The copy fails after one byte of the two, and the byte stays under the file's name. -/
theorem part_of_a_file_left :
    ∃ acts v, Lts.Run (Lts.ofPartial (round fullDisk))
        (start (gunzipOf 0 sameNames) (fun _ => ⟨[], true⟩) (some (sameNamesGzip []).flatten) ∅)
        acts v ∧
      v.outcome = some (extractFile fullDisk (gunzipOf 0 sameNames) (fun _ => ⟨[], true⟩)
        (some (sameNamesGzip []).flatten) ∅).1 ∧
      v.inbox = (extractFile fullDisk (gunzipOf 0 sameNames) (fun _ => ⟨[], true⟩)
        (some (sameNamesGzip []).flatten) ∅).2 ∧
      v.inbox.lookup (inboxPath "a.txt".toList) = some (asBytes "h".toList) ∧
      ¬Intact ∅ v := by
  obtain ⟨archive, built⟩ := cpioArchive_total 0 (show ∀ i ∈ sameNames, i.file.length = i.size by
    decide) (by decide) (show 0 + sameNames.length < 8 ^ 6 by decide)
  have hsafe : SafeLeaf "a.txt".toList := safeLeaf_safe (sameNames_safe _ List.mem_cons_self)
  have hinner := gunzipOf_ok built (sameNamesGzip []).flatten
  unfold sameNames cpioArchive at built
  obtain ⟨member, hmember, built⟩ := bind_eq_ok.mp built
  obtain ⟨later, -, built⟩ := bind_eq_ok.mp built
  have harchive : member ++ later = archive := pure_eq_ok.mp built
  have hmagic : (sameNamesGzip []).flatten.take 2 = [0x1f, 0x8b] := rfl
  have hstart : start (gunzipOf 0 sameNames) (fun _ => ⟨[], true⟩)
      (some (sameNamesGzip []).flatten) ∅ =
      { reader := .before ⟨member ++ later, false⟩, inbox := ∅ } := by
    unfold start
    dsimp only
    rw [if_pos hmagic, hinner, harchive]
  have hresult : extractFile fullDisk (gunzipOf 0 sameNames) (fun _ => ⟨[], true⟩)
      (some (sameNamesGzip []).flatten) ∅ =
      extractLoop fullDisk (.before ⟨member ++ later, false⟩) 0 0 [] ∅ := by
    unfold extractFile extract
    dsimp only
    rw [if_pos hmagic, hinner, harchive]
  obtain ⟨acts, v, run, houtcome, hinbox⟩ := extract_rounds fullDisk
    { reader := .before ⟨member ++ later, false⟩, inbox := ∅ } rfl
  rw [hresult, hstart]
  refine ⟨acts, v, run, houtcome, hinbox, ?_⟩
  generalize hu : ({ reader := .before ⟨member ++ later, false⟩, inbox := ∅ } : Unpack) = u at run
  have hempty : u.inbox = ∅ := hu ▸ rfl
  have hmade : u.made = [] := hu ▸ rfl
  have hmembers : u.members = 0 := hu ▸ rfl
  have htotal : u.total = 0 := hu ▸ rfl
  have hrunning : u.outcome = none := hu ▸ rfl
  have hdest : u.dest "a.txt".toList = inboxPath "a.txt".toList := by
    rw [dest, hempty]
    rfl
  have hfree : u.dest "a.txt".toList ∉ u.inbox := by
    rw [hempty]
    exact AList.notMem_empty _
  -- the first round is the last
  have hreader : u.reader = .before ⟨member ++ later, false⟩ := hu ▸ rfl
  obtain ⟨i, hi⟩ : ∃ i : Item, i = ⟨asBytes "hi".toList, "a.txt".toList, 2⟩ := ⟨_, rfl⟩
  rw [← hi] at hmember
  have hname : i.name = "a.txt".toList := hi ▸ rfl
  have hsize : (entryHeader 0 0 i).fileSize = i.file.length := hi ▸ rfl
  have hnext := hreader ▸ readNext_entry hmember (hname ▸ hsafe) later false
  have hkeep : memberLeaf (entryHeader 0 0 i) = some "a.txt".toList :=
    hname ▸ (memberLeaf_entryHeader 0 0 (hname ▸ hsafe)).trans (if_pos (hi ▸ rfl))
  have hcopy : (Odc.Reader.within i.file.length ⟨i.file ++ later, false⟩).copy
      (entryHeader 0 0 i).fileSize = (i.file, false, .within 0 ⟨later, false⟩) :=
    hsize ▸ Odc.Reader.copy_within i.file later false
  have hstored : u.stored fullDisk i.file = asBytes "h".toList := hi ▸ rfl
  have hopen : u.refuses fullDisk (entryHeader 0 0 i) "a.txt".toList = none := by
    refine refuses_none (by rw [hmembers]; decide) ?_ ?_
    · rw [htotal, hsize, hi]
      decide
    · rw [decide_eq_false hfree]
      exact Bool.false_ne_true
  have hbad : (false || decide ((u.stored fullDisk i.file).length < i.file.length)) = true := by
    rw [hstored, hi]
    decide
  have hv := run_lastRound (by rw [houtcome]; exact Option.some_ne_none _) hrunning run
    ((round_member fullDisk hrunning hnext hkeep).trans (congrArg some
      (member_notCopied hopen hcopy hbad)))
    (Option.some_ne_none _)
  have hlookup : v.inbox.lookup (u.dest "a.txt".toList) = some (asBytes "h".toList) := by
    rw [hv, ← hstored]
    exact lookup_make (h := entryHeader 0 0 i) i.file
  refine ⟨hdest ▸ hlookup, fun hintact => ?_⟩
  obtain ⟨m, hm, -, hwhole⟩ := hintact.whole _ (List.mem_filter.mpr
    ⟨AList.lookup_isSome.mp (by rw [hlookup]; rfl), decide_eq_true (AList.notMem_empty _)⟩)
  have hm : m ∈ u.made ++ [⟨u.dest "a.txt".toList, (entryHeader 0 0 i).fileSize⟩] := by
    rw [hv] at hm
    exact hm
  rw [hmade, hsize, hi] at hm
  rw [List.mem_singleton.mp hm, hlookup] at hwhole
  cases hwhole

end Unpack

end Sharingd
