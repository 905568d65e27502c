import TarishDaemon.Sharingd.Ask
import TarishDaemon.Sharingd.Chunked
import TarishDaemon.Sharingd.Names
import TarishDaemon.Sharingd.Odc

/-!
# An archive, sent and unpacked

The sender writes its items into one cpio archive, compresses it and sends it in
chunks; the receiver puts the body in a file and unpacks that into the inbox.  The two
have a rule each for what a member is called, and the receiver leaves some members out:
empty ones, and those whose name begins as the sidecar of another file.

**Every item that is not left out gets one new file** with what was read of it, under
its name or the first numbered one that is free (`extractLoop_archive`).
-/

namespace Sharingd

open Rust

/-! ## The sender -/

/-- The header of an item; a receiver looks the member up by this path. -/
def entryHeader (count : Nat) (now : Int) (i : Item) : Odc.Header :=
  { Odc.nextHeader count now with
    name := "./".toList ++ i.name
    fileSize := i.size
    mode := 0o100644 }

/-- The archive of the items, from the builder that has made `count` headers. -/
def cpioArchive (now : Int) : Nat → List Item → Except Odc.Error Bytes
  | count, [] => Odc.finish count now
  | count, i :: items => do
      let member ← Odc.append (entryHeader count now i) i.file
      let later ← cpioArchive now (count + 1) items
      return member ++ later

/-- The body of `/Upload`; `gzip` is the list of writes the encoder makes. -/
def uploadBody (gzip : Bytes → List Bytes) (now : Int) (items : List Item) :
    Except Odc.Error Bytes := do
  let archive ← cpioArchive now 0 items
  return chunkedBody (gzip archive)

/-! ## The receiver -/

/-- The most that is unpacked, over all members. -/
def maxExtractedBytes : Nat := 8 * 1024 * 1024 * 1024

/-- The most files of one archive. -/
def maxMembers : Nat := 1024

inductive ExtractError
  | cpio (e : Odc.Error)
  | tooManyMembers
  | tooLarge (leaf : Text) (size : Nat)
  | notOpened
  | notCopied
  | truncated (leaf : Text) (copied size : Nat)
  deriving DecidableEq, Repr

/-- What the disk does at each file: whether it opens, how many bytes it takes, and
whether it can be removed again. -/
structure ExtractEnv where
  opens : Nat → Bool
  stops : Nat → Option Nat
  removes : Nat → Bool

/-- The file name of a member, unless it is skipped. -/
def memberLeaf (h : Odc.Header) : Option Text :=
  match safeLeaf h.name with
  | none => none
  | some leaf =>
      let isDir := h.mode &&& 0o170000 = 0o040000
      if "._".toList.isPrefixOf leaf ∨ isDir ∨ h.fileSize = 0 then none else some leaf

/-- The loop of `extract`. -/
def extractLoop (env : ExtractEnv) (r : Odc.Reader) (total members : Nat) (names : List Text)
    (inbox : HashMap Text Bytes) : Except ExtractError (List Text) × HashMap Text Bytes :=
  match _hnext : r.readNext with
  | .error e => (.error (.cpio e), inbox)
  | .ok (none, _) => (.ok names, inbox)
  | .ok (some h, r1) =>
      match memberLeaf h with
      | none =>
          match _hskip : r1.finish with
          | .error e => (.error (.cpio e), inbox)
          | .ok r2 => extractLoop env r2 total members names inbox
      | some leaf =>
          let members := members + 1
          if members > maxMembers then (.error .tooManyMembers, inbox)
          else if h.fileSize > maxExtractedBytes - total then
            (.error (.tooLarge leaf h.fileSize), inbox)
          else
            let dest := nonClobbering (fun path => decide (path ∈ inbox)) inboxDir leaf
            -- `create_new`: an existing file is an error
            if !env.opens members || decide (dest ∈ inbox) then (.error .notOpened, inbox)
            else
              match _hcopy : r1.copy h.fileSize with
              | (data, failed, r2) =>
                  let stored := data.take ((env.stops members).getD data.length)
                  let inbox := inbox.insert dest stored
                  if failed || decide (stored.length < data.length) then
                    (.error .notCopied, inbox)
                  else if data.length ≠ h.fileSize then
                    (.error (.truncated leaf data.length h.fileSize),
                      if env.removes members then inbox.erase dest else inbox)
                  else
                    match _hfinish : r2.finish with
                    | .error e => (.error (.cpio e), inbox)
                    | .ok r3 =>
                        extractLoop env r3 (total + data.length) members
                          (names ++ (fileName dest).toList) inbox
termination_by r.remaining
decreasing_by
  · exact Nat.lt_of_le_of_lt (Odc.Reader.remaining_finish _hskip)
      (Odc.Reader.remaining_readNext _hnext)
  · have hcopy := Odc.Reader.remaining_copy r1 h.fileSize
    rw [_hcopy] at hcopy
    exact Nat.lt_of_le_of_lt (Nat.le_trans (Odc.Reader.remaining_finish _hfinish) hcopy)
      (Odc.Reader.remaining_readNext _hnext)

/-- `extract`; the two containers are told apart by their first bytes. -/
def extract (env : ExtractEnv) (gunzip unframe : Bytes → Source) (archive : Bytes)
    (inbox : HashMap Text Bytes) : Except ExtractError (List Text) × HashMap Text Bytes :=
  let inner := if archive.take 2 = [0x1f, 0x8b] then gunzip archive else unframe archive
  extractLoop env (Odc.Reader.before inner) 0 0 [] inbox

/-! ## One member -/

variable {env : ExtractEnv} {r r1 r2 r3 : Odc.Reader} {h : Odc.Header} {total members : Nat}
  {names : List Text} {inbox : HashMap Text Bytes}

theorem extractLoop_end (hnext : r.readNext = .ok (none, r1)) :
    extractLoop env r total members names inbox = (.ok names, inbox) := by
  rw [extractLoop]
  split
  next he => rw [hnext] at he; cases he
  next he => rfl
  next he => rw [hnext] at he; cases he

theorem extractLoop_skip (hnext : r.readNext = .ok (some h, r1)) (hskip : memberLeaf h = none)
    (hfinish : r1.finish = .ok r2) :
    extractLoop env r total members names inbox =
      extractLoop env r2 total members names inbox := by
  rw [extractLoop]
  split
  next he => rw [hnext] at he; cases he
  next he => rw [hnext] at he; cases he
  next he =>
    rw [hnext] at he
    cases he
    rw [hskip]
    dsimp only
    split
    next he => rw [hfinish] at he; cases he
    next he => rw [hfinish] at he; cases he; rfl

theorem extractLoop_keep {leaf : Text} {data : Bytes} (hnext : r.readNext = .ok (some h, r1))
    (hkeep : memberLeaf h = some leaf) (hmembers : members < maxMembers)
    (hsize : h.fileSize ≤ maxExtractedBytes - total) (hopens : env.opens (members + 1) = true)
    (hfree : nonClobbering (fun path => decide (path ∈ inbox)) inboxDir leaf ∉ inbox)
    (hcopy : r1.copy h.fileSize = (data, false, r2)) (hstops : env.stops (members + 1) = none)
    (hdata : data.length = h.fileSize) (hfinish : r2.finish = .ok r3) :
    extractLoop env r total members names inbox =
      extractLoop env r3 (total + data.length) (members + 1)
        (names ++
          (fileName (nonClobbering (fun path => decide (path ∈ inbox)) inboxDir leaf)).toList)
        (inbox.insert (nonClobbering (fun path => decide (path ∈ inbox)) inboxDir leaf) data) := by
  rw [extractLoop]
  split
  next he => rw [hnext] at he; cases he
  next he => rw [hnext] at he; cases he
  next he =>
    rw [hnext] at he
    cases he
    rw [hkeep]
    dsimp only
    rw [if_neg (by omega), if_neg (by omega), if_neg (by simp [hopens, hfree])]
    generalize r1.copy h.fileSize = copied at hcopy ⊢
    subst hcopy
    dsimp only
    rw [hstops, Option.getD_none, List.take_length, if_neg (by simp), if_neg (by simp [hdata])]
    split
    next he => rw [hfinish] at he; cases he
    next he => rw [hfinish] at he; cases he; rfl

/-! ## The items, member by member -/

/-- Is the item unpacked?  An empty file is not, nor the sidecar of another one. -/
def kept (i : Item) : Bool :=
  !"._".toList.isPrefixOf i.name && decide (i.size ≠ 0)

theorem memberLeaf_entryHeader (count : Nat) (now : Int) {i : Item} (safe : SafeLeaf i.name) :
    memberLeaf (entryHeader count now i) = if kept i then some i.name else none := by
  have hname : safeLeaf (entryHeader count now i).name = some i.name :=
    safe.safeLeaf_append ['.']
  have hdir : ¬((entryHeader count now i).mode &&& 0o170000 = 0o040000) :=
    show ¬(0o100644 &&& 0o170000 = 0o040000) by decide
  have hsize : (entryHeader count now i).fileSize = i.size := rfl
  unfold memberLeaf kept
  rw [hname]
  dsimp only
  by_cases hside : "._".toList.isPrefixOf i.name = true
  · rw [if_pos (.inl hside), hside]
    rfl
  · by_cases hzero : i.size = 0
    · rw [if_pos (.inr (.inr hzero)), decide_eq_false (not_not.mpr hzero), Bool.and_false]
      rfl
    · rw [hsize, if_neg (not_or.mpr ⟨hside, not_or.mpr ⟨hdir, hzero⟩⟩),
        eq_false_of_ne_true hside, decide_eq_true hzero]
      rfl

/-- The reader takes the header of an item back. -/
theorem readNext_entry {count : Nat} {now : Int} {i : Item} {member : Bytes}
    (hmember : Odc.append (entryHeader count now i) i.file = .ok member) (safe : SafeLeaf i.name)
    (rest : Bytes) (broken : Bool) :
    (Odc.Reader.before ⟨member ++ rest, broken⟩).readNext =
      .ok (some (entryHeader count now i), .within i.file.length ⟨i.file ++ rest, broken⟩) := by
  have hnul : ∀ c ∈ (entryHeader count now i).name, c.toNat ≠ 0 := by
    intro c hc
    rcases List.mem_append.mp hc with hc | hc
    · have hdir : ∀ c ∈ "./".toList, c.toNat ≠ 0 := Odc.ne_zero_of_all (by decide)
      exact hdir c hc
    · exact safe.ne_zero c hc
  have htrailer : (entryHeader count now i).name ≠ Odc.trailer := by
    intro he
    have hhead := congrArg List.head? he
    cases hhead
  exact Odc.Reader.readNext_append hmember (Odc.mtime_nextHeader count now) hnul htrailer rest
    broken

/-- `inbox'` is the inbox after the items went there one by one, each under the name that
`non_clobbering` found for it, where no file was. -/
inductive Landed : HashMap Text Bytes → List Item → List Text → HashMap Text Bytes → Prop
  | nil (inbox : HashMap Text Bytes) : Landed inbox [] [] inbox
  | cons {inbox inbox' : HashMap Text Bytes} {i : Item} {items : List Item} {name : Text}
      {names : List Text}
      (found : nonClobbering (fun path => decide (path ∈ inbox)) inboxDir i.name = inboxPath name)
      (free : inboxPath name ∉ inbox)
      (later : Landed (inbox.insert (inboxPath name) i.file) items names inbox') :
      Landed inbox (i :: items) (name :: names) inbox'

/-- Does each item find a name that is free in its turn? -/
def HasRoom : HashMap Text Bytes → List Item → Prop
  | _, [] => True
  | inbox, i :: items =>
      nonClobbering (fun path => decide (path ∈ inbox)) inboxDir i.name ∉ inbox ∧
        HasRoom (inbox.insert (nonClobbering (fun path => decide (path ∈ inbox)) inboxDir i.name)
          i.file) items

/-- With fewer than ten thousand files, those that come counted, there is room. -/
theorem hasRoom_of_length {items : List Item} (h : inbox.keys.length + items.length ≤ 10000) :
    HasRoom inbox items := by
  induction items generalizing inbox with
  | nil => trivial
  | cons i items ih =>
      rw [List.length_cons] at h
      have hfree := nonClobbering_notMem (show inbox.keys.length < 10000 by omega) i.name
      refine ⟨hfree, ih ?_⟩
      rw [length_insert_of_notMem hfree]
      omega

theorem fileName_nonClobbering (taken : Text → Bool) {leaf : Text} (safe : SafeLeaf leaf) :
    ∃ name, nonClobbering taken inboxDir leaf = inboxPath name ∧
      fileName (nonClobbering taken inboxDir leaf) = some name := by
  obtain ⟨name, hname, hsafe⟩ := nonClobbering_safe taken safe
  exact ⟨name, hname, hname ▸ fileName_inboxPath hsafe⟩

/-- **Every item that is kept is unpacked.** -/
theorem extractLoop_archive (hopens : ∀ k, env.opens k = true) (hstops : ∀ k, env.stops k = none)
    {now : Int} {count : Nat} {items : List Item} {archive : Bytes}
    (built : cpioArchive now count items = .ok archive)
    (safe : ∀ i ∈ items, SafeLeaf i.name) (hread : ∀ i ∈ items, i.file.length = i.size)
    (hmembers : members + items.length ≤ maxMembers)
    (htotal : total + (items.map Item.size).sum ≤ maxExtractedBytes)
    (room : HasRoom inbox (items.filter kept)) (rest : Bytes) (broken : Bool) :
    ∃ later inbox', extractLoop env (.before ⟨archive ++ rest, broken⟩) total members names inbox =
        (.ok (names ++ later), inbox') ∧
      Landed inbox (items.filter kept) later inbox' := by
  induction items generalizing count archive total members names inbox with
  | nil =>
      obtain ⟨r, hnext⟩ := Odc.Reader.readNext_finish built rest broken
      exact ⟨[], inbox, by rw [extractLoop_end hnext, List.append_nil], .nil inbox⟩
  | cons i items ih =>
      unfold cpioArchive at built
      obtain ⟨member, hmember, built⟩ := bind_eq_ok.mp built
      obtain ⟨later, hlater, built⟩ := bind_eq_ok.mp built
      rw [← pure_eq_ok.mp built, List.append_assoc]
      have hsafe := safe i List.mem_cons_self
      have hfile := hread i List.mem_cons_self
      have hnext := readNext_entry hmember hsafe (later ++ rest) broken
      have hleaf := memberLeaf_entryHeader count now hsafe
      have hsafe' : ∀ i ∈ items, SafeLeaf i.name := fun i hi => safe i (List.mem_cons_of_mem _ hi)
      have hread' : ∀ i ∈ items, i.file.length = i.size := fun i hi =>
        hread i (List.mem_cons_of_mem _ hi)
      rw [List.length_cons] at hmembers
      rw [List.map_cons, List.sum_cons] at htotal
      by_cases hkept : kept i = true
      · rw [if_pos hkept] at hleaf
        rw [List.filter_cons, if_pos hkept] at room ⊢
        obtain ⟨hfree, hroom⟩ := room
        obtain ⟨name, hname, hfileName⟩ := fileName_nonClobbering
          (fun path => decide (path ∈ inbox)) hsafe
        have hcopy := Odc.Reader.copy_within i.file (later ++ rest) broken
        have hfinish := Odc.Reader.finish_within [] (later ++ rest) broken
        have hsize : (entryHeader count now i).fileSize = i.file.length := hfile.symm
        obtain ⟨names', inbox', hloop, hlanded⟩ := ih hlater hsafe' hread'
          (show members + 1 + items.length ≤ maxMembers by omega)
          (show total + i.file.length + (items.map Item.size).sum ≤ maxExtractedBytes by omega)
          hroom
        refine ⟨name :: names', inbox', ?_, .cons hname (hname ▸ hfree) (hname ▸ hlanded)⟩
        rw [extractLoop_keep hnext hleaf (by omega) (by omega) (hopens _) hfree
          (hsize ▸ hcopy) (hstops _) hsize.symm hfinish, hloop, hfileName, List.append_assoc]
        rfl
      · rw [if_neg hkept] at hleaf
        rw [List.filter_cons, if_neg hkept] at room ⊢
        obtain ⟨names', inbox', hloop, hlanded⟩ := ih hlater hsafe' hread'
          (show members + items.length ≤ maxMembers by omega)
          (show total + (items.map Item.size).sum ≤ maxExtractedBytes by omega) room
        exact ⟨names', inbox', by
          rw [extractLoop_skip hnext hleaf (Odc.Reader.finish_within _ _ _), hloop], hlanded⟩

/-- What fits the header is taken by the builder. -/
theorem cpioArchive_total (now : Int) {count : Nat} {items : List Item}
    (hread : ∀ i ∈ items, i.file.length = i.size)
    (fits : ∀ i ∈ items, (asBytes i.name).length + 3 < 8 ^ 6 ∧ i.size < 8 ^ 11)
    (hcount : count + items.length < 8 ^ 6) :
    ∃ archive, cpioArchive now count items = .ok archive := by
  induction items generalizing count with
  | nil =>
      exact Odc.write_nextHeader now hcount (show 0o644 < 8 ^ 6 by decide)
        (show (asBytes Odc.trailer).length + 1 < 8 ^ 6 by decide) (show 0 < 8 ^ 11 by decide)
  | cons i items ih =>
      rw [List.length_cons] at hcount
      obtain ⟨hname, hsize⟩ := fits i List.mem_cons_self
      have hlen : (asBytes ("./".toList ++ i.name)).length = (asBytes i.name).length + 2 := by
        have happend : asBytes ("./".toList ++ i.name) = asBytes "./".toList ++ asBytes i.name :=
          List.flatMap_append
        rw [happend, List.length_append, Nat.add_comm]
        rfl
      obtain ⟨header, hw⟩ := Odc.write_nextHeader now (show count < 8 ^ 6 by omega)
        (show 0o100644 < 8 ^ 6 by decide) (show (asBytes ("./".toList ++ i.name)).length + 1 < 8 ^ 6
          by omega) hsize
      obtain ⟨later, hlater⟩ := ih (fun j hj => hread j (List.mem_cons_of_mem _ hj))
        (fun j hj => fits j (List.mem_cons_of_mem _ hj))
        (show count + 1 + items.length < 8 ^ 6 by omega)
      have hfile : ¬(i.file.length ≠ (entryHeader count now i).fileSize) :=
        not_not.mpr (hread i List.mem_cons_self)
      have happend : Odc.append (entryHeader count now i) i.file = .ok (header ++ i.file) := by
        unfold Odc.append
        rw [show (entryHeader count now i).write = .ok header from hw]
        simp only [bind, Except.bind, if_neg hfile, pure, Except.pure]
      simp only [cpioArchive, happend, hlater, bind, Except.bind, pure, Except.pure]
      exact ⟨_, rfl⟩

namespace Landed

variable {inbox' : HashMap Text Bytes} {items : List Item}

theorem lookup_other {path : Text} (h : Landed inbox items names inbox')
    (hpath : path ∉ names.map inboxPath) : inbox'.lookup path = inbox.lookup path := by
  induction h with
  | nil => rfl
  | cons found free later ih =>
      obtain ⟨hne, hlater⟩ := not_or.mp (mt List.mem_cons.mpr hpath)
      rw [ih hlater, AList.lookup_insert_ne hne]

/-- The files are new, and no two are one. -/
theorem new_nodup (h : Landed inbox items names inbox') :
    (∀ name ∈ names, inboxPath name ∉ inbox) ∧ names.Nodup := by
  induction h with
  | nil => exact ⟨fun _ hmem => absurd hmem List.not_mem_nil, List.nodup_nil⟩
  | cons found free later ih =>
      obtain ⟨hnew, hnodup⟩ := ih
      refine ⟨?_, List.nodup_cons.mpr ⟨?_, hnodup⟩⟩
      · intro other hmem
        rcases List.mem_cons.mp hmem with rfl | hmem
        · exact free
        · exact fun hin => hnew other hmem ((AList.mem_insert _).mpr (.inr hin))
      · exact fun hmem => hnew _ hmem ((AList.mem_insert _).mpr (.inl rfl))

/-- Each file has what was read of its item, under its name or a variant of it. -/
theorem files (h : Landed inbox items names inbox') :
    List.Forall₂ (fun i name => inbox'.lookup (inboxPath name) = some i.file ∧
      (name = i.name ∨ ∃ n, 1 ≤ n ∧ n ≤ 9999 ∧ name = variant i.name n)) items names := by
  induction h with
  | nil => exact .nil
  | @cons inbox inbox' i items name names found free later ih =>
      refine .cons ⟨?_, ?_⟩ ih
      · have hother : inboxPath name ∉ names.map inboxPath := by
          intro hmem
          obtain ⟨other, hother, heq⟩ := List.mem_map.mp hmem
          exact later.new_nodup.1 other hother
            (heq ▸ (AList.mem_insert _).mpr (.inl rfl))
        rw [later.lookup_other hother, AList.lookup_insert]
      · obtain ⟨name', hname', hcase⟩ := nonClobbering_cases
          (fun path => decide (path ∈ inbox)) i.name
        obtain rfl : name = name' := inboxPath_injective (found.symm.trans hname')
        exact hcase

end Landed

end Sharingd
