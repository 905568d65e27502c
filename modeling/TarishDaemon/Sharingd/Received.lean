import TarishDaemon.Sharingd.UploadRound

/-!
# Collecting what was received

A client lists the inbox, and opens and removes files by their leaf names.  The names go
through `safe_leaf` again on the way out, which leaves them as they are, numbers in them
included.  What ends in `.cpio` is taken for an archive that could not be unpacked: it is not
listed, and not opened under its name.

**A received file can be collected exactly where its name does not end so**
(`received_collectable_iff`); a sender can choose one that does.
-/

namespace Sharingd

open Rust

/-! ## The way out -/

/-- The ending of an archive's name. -/
def archiveExt : Text := ".cpio".toList

/-- The name of a file of the inbox; there are no directories in it. -/
def leafOf (path : Text) : Option Text :=
  if (inboxDir ++ ['/']).isPrefixOf path then some (path.drop (inboxDir.length + 1)) else none

/-- The order of strings is that of their bytes, in UTF-8 that of their characters. -/
def textLe (a b : Text) : Bool :=
  !List.lex b a fun c d => decide (c.toNat < d.toNat)

/-- `received_files`; `none` is a directory that cannot be read. -/
def receivedFiles (inbox : Option (HashMap Text Bytes)) : List Text :=
  match inbox with
  | none => []
  | some inbox =>
      ((inbox.keys.filterMap leafOf).filter fun name => !archiveExt.isSuffixOf name).mergeSort
        textLe

/-- `inbox_path`. -/
def inboxPathOf (name : Text) : Option Text :=
  match safeLeaf name with
  | some leaf => if !archiveExt.isSuffixOf leaf then some (inboxPath leaf) else none
  | none => none

/-- `open_received`. -/
def openReceived (inbox : HashMap Text Bytes) (name : Text) : Option Bytes :=
  (inboxPathOf name).bind inbox.lookup

/-- `delete_received`. -/
def deleteReceived (inbox : HashMap Text Bytes) (name : Text) : Option (HashMap Text Bytes) :=
  (inboxPathOf name).bind fun path => if path ∈ inbox then some (inbox.erase path) else none

/-- The file is listed under its name, and that name opens it and removes it. -/
structure Collectable (inbox : HashMap Text Bytes) (name : Text) : Prop where
  listed : name ∈ receivedFiles (some inbox)
  opened : ∃ data, inbox.lookup (inboxPath name) = some data ∧ openReceived inbox name = some data
  deleted : deleteReceived inbox name = some (inbox.erase (inboxPath name))

theorem leafOf_inboxPath (name : Text) : leafOf (inboxPath name) = some name := by
  have hpath : inboxPath name = (inboxDir ++ ['/']) ++ name := by
    rw [inboxPath, List.append_assoc, List.singleton_append]
  have hprefix : (inboxDir ++ ['/']).isPrefixOf (inboxPath name) = true := by
    rw [List.isPrefixOf_iff_prefix, hpath]
    exact List.prefix_append _ _
  rw [leafOf, if_pos hprefix, hpath]
  exact congrArg some (List.drop_left' (by rw [List.length_append, List.length_singleton]))

/-- **A safe name of a file is collectable exactly where it does not end as an archive's.** -/
theorem collectable_iff {inbox : HashMap Text Bytes} {name : Text} (safe : SafeLeaf name)
    (there : inboxPath name ∈ inbox) : Collectable inbox name ↔ ¬archiveExt <:+ name := by
  have hnot : (!archiveExt.isSuffixOf name) = true ↔ ¬archiveExt <:+ name := by
    rw [Bool.not_eq_true', ← List.isSuffixOf_iff_suffix, Bool.not_eq_true]
  constructor
  · intro hcollectable
    exact hnot.mp (List.mem_filter.mp (List.mem_mergeSort.mp hcollectable.listed)).2
  · intro hext
    obtain ⟨data, hdata⟩ := Option.isSome_iff_exists.mp (AList.lookup_isSome.mpr there)
    have hpath : inboxPathOf name = some (inboxPath name) := by
      rw [inboxPathOf, safe.safeLeaf_self]
      exact if_pos (hnot.mpr hext)
    refine ⟨?_, ⟨data, hdata, ?_⟩, ?_⟩
    · rw [receivedFiles, List.mem_mergeSort, List.mem_filter]
      exact ⟨List.mem_filterMap.mpr ⟨_, AList.mem_keys.mpr there, leafOf_inboxPath name⟩,
        hnot.mpr hext⟩
    · rw [openReceived, hpath]
      exact hdata
    · rw [deleteReceived, hpath]
      exact if_pos there

/-! ## The name it gets -/

/-- A variant ends as an archive's name where the name does, unless there is no more to it. -/
theorem archiveExt_variant_iff {leaf : Text} {n : Nat} :
    archiveExt <:+ variant leaf n ↔ archiveExt <:+ leaf ∧ leaf ≠ archiveExt := by
  have hvariant : archiveExt <:+ variant leaf n ↔
      ∃ stem, stem ≠ [] ∧ leaf = stem ++ archiveExt :=
    suffix_variant_iff (by decide) (by decide)
  rw [hvariant]
  constructor
  · rintro ⟨stem, hstem, rfl⟩
    exact ⟨List.suffix_append _ _, fun he => hstem (List.append_left_eq_self.mp he)⟩
  · rintro ⟨⟨stem, rfl⟩, hne⟩
    exact ⟨stem, fun he => hne (by rw [he, List.nil_append]), rfl⟩

/-- What a name has to be like for its file to be collected: it does not end as an archive's,
or it is nothing but that ending, and another file has that name. -/
def LeafCollectable (inbox : HashMap Text Bytes) (leaf : Text) : Prop :=
  archiveExt <:+ leaf → leaf = archiveExt ∧ inboxPath archiveExt ∈ inbox

/-- **The name that `non_clobbering` finds** ends as an archive's exactly where the leaf is
not collectable. -/
theorem found_archiveExt_iff {inbox : HashMap Text Bytes} {leaf name : Text}
    (found : nonClobbering (fun path => decide (path ∈ inbox)) inboxDir leaf = inboxPath name)
    (free : inboxPath name ∉ inbox) : ¬archiveExt <:+ name ↔ LeafCollectable inbox leaf := by
  obtain ⟨other, hother, hcase⟩ := nonClobbering_cases (fun path => decide (path ∈ inbox)) leaf
  obtain rfl : name = other := inboxPath_injective (found.symm.trans hother)
  unfold LeafCollectable
  constructor
  · intro hname hleaf
    rcases hcase with rfl | ⟨n, -, -, rfl⟩
    · exact absurd hleaf hname
    · have harchive : leaf = archiveExt := by
        by_contra hne
        exact hname (archiveExt_variant_iff.mpr ⟨hleaf, hne⟩)
      refine ⟨harchive, ?_⟩
      by_contra hfree
      rw [← harchive] at hfree
      rw [nonClobbering_free (decide_eq_false hfree)] at found
      exact hname (inboxPath_injective found ▸ hleaf)
  · intro hleaf hname
    rcases hcase with rfl | ⟨n, -, -, rfl⟩
    · obtain ⟨rfl, hin⟩ := hleaf hname
      exact free hin
    · obtain ⟨hsuffix, hne⟩ := archiveExt_variant_iff.mp hname
      exact hne (hleaf hsuffix).1

/-! ## A whole archive -/

theorem memberLeaf_safe {h : Odc.Header} {leaf : Text} (hkeep : memberLeaf h = some leaf) :
    SafeLeaf leaf := by
  unfold memberLeaf at hkeep
  split at hkeep
  · cases hkeep
  next leaf' hsafe =>
    dsimp only at hkeep
    split at hkeep
    · cases hkeep
    · cases hkeep
      exact safeLeaf_safe hsafe

/-- The members that are unpacked, each with the content that can be read of it. -/
def keptItems (r : Odc.Reader) : List Item :=
  match _hnext : r.readNext with
  | .error _ => []
  | .ok (none, _) => []
  | .ok (some h, r1) =>
      match memberLeaf h with
      | none =>
          match _hskip : r1.finish with
          | .error _ => []
          | .ok r2 => keptItems r2
      | some leaf =>
          match _hcopy : r1.copy h.fileSize with
          | (data, _, r2) =>
              match _hfinish : r2.finish with
              | .error _ => []
              | .ok r3 => ⟨data, leaf, h.fileSize⟩ :: keptItems r3
termination_by r.remaining
decreasing_by
  · exact Nat.lt_of_le_of_lt (Odc.Reader.remaining_finish _hskip)
      (Odc.Reader.remaining_readNext _hnext)
  · have hcopy := Odc.Reader.remaining_copy r1 h.fileSize
    rw [_hcopy] at hcopy
    exact Nat.lt_of_le_of_lt (Nat.le_trans (Odc.Reader.remaining_finish _hfinish) hcopy)
      (Odc.Reader.remaining_readNext _hnext)

section Kept

variable {env : ExtractEnv} {r r1 r2 r3 : Odc.Reader} {h : Odc.Header} {leaf : Text}

theorem keptItems_end (hnext : r.readNext = .ok (none, r1)) : keptItems r = [] := by
  rw [keptItems]
  split
  next => rfl
  next => rfl
  next he =>
    rw [hnext] at he
    cases he

theorem keptItems_skip (hnext : r.readNext = .ok (some h, r1)) (hskip : memberLeaf h = none)
    (hfinish : r1.finish = .ok r2) : keptItems r = keptItems r2 := by
  rw [keptItems]
  split
  next he => rw [hnext] at he; cases he
  next he => rw [hnext] at he; cases he
  next he =>
    rw [hnext] at he
    cases he
    rw [hskip]
    dsimp only
    split
    next he => rw [hfinish] at he; cases he
    next he => rw [hfinish] at he; cases he; rfl

theorem keptItems_keep {data : Bytes} {failed : Bool} (hnext : r.readNext = .ok (some h, r1))
    (hkeep : memberLeaf h = some leaf) (hcopy : r1.copy h.fileSize = (data, failed, r2))
    (hfinish : r2.finish = .ok r3) :
    keptItems r = ⟨data, leaf, h.fileSize⟩ :: keptItems r3 := by
  rw [keptItems]
  split
  next he => rw [hnext] at he; cases he
  next he => rw [hnext] at he; cases he
  next he =>
    rw [hnext] at he
    cases he
    rw [hkeep]
    dsimp only
    generalize r1.copy h.fileSize = copied at hcopy ⊢
    subst hcopy
    dsimp only
    split
    next he => rw [hfinish] at he; cases he
    next he => rw [hfinish] at he; cases he; rfl

theorem keptItems_safe (r : Odc.Reader) : ∀ i ∈ keptItems r, SafeLeaf i.name := by
  fun_induction keptItems r with
  | case1 => exact fun i hi => absurd hi List.not_mem_nil
  | case2 => exact fun i hi => absurd hi List.not_mem_nil
  | case3 => exact fun i hi => absurd hi List.not_mem_nil
  | case4 _ _ _ _ _ _ _ ih => exact ih
  | case5 => exact fun i hi => absurd hi List.not_mem_nil
  | case6 r h r1 hnext leaf hkeep data failed r2 hcopy r3 hfinish ih =>
      intro i hi
      rcases List.mem_cons.mp hi with rfl | hi
      · exact memberLeaf_safe hkeep
      · exact ih i hi

/-- **What is unpacked without an error has landed**, every member of it. -/
theorem extractLoop_landed {total members : Nat} {names names' : List Text}
    {inbox inbox' : HashMap Text Bytes}
    (hloop : extractLoop env r total members names inbox = (.ok names', inbox')) :
    ∃ later, names' = names ++ later ∧ Landed inbox (keptItems r) later inbox' := by
  fun_induction extractLoop env r total members names inbox with
  | case2 r total members names inbox r1 hnext =>
      cases hloop
      rw [keptItems_end hnext]
      exact ⟨[], (List.append_nil _).symm, .nil _⟩
  | case4 r total members names inbox h r1 hnext hskip r2 hfinish ih =>
      rw [keptItems_skip hnext hskip hfinish]
      exact ih hloop
  | case11 r total members names inbox h r1 hnext leaf hkeep _ hmany hlarge dest hopens data failed
      r2 hcopy stored inbox1 hgood hwhole r3 hfinish ih =>
      obtain ⟨later, hnames, hlanded⟩ := ih hloop
      obtain ⟨name, hname, hfileName⟩ : ∃ name, dest = inboxPath name ∧ fileName dest = some name :=
        fileName_nonClobbering (fun path => decide (path ∈ inbox)) (memberLeaf_safe hkeep)
      have hfree : dest ∉ inbox := by
        simp only [Bool.or_eq_true, decide_eq_true_eq, not_or] at hopens
        exact hopens.2
      have hstored : stored = data := by
        simp only [Bool.or_eq_true, decide_eq_true_eq, not_or, Nat.not_lt] at hgood
        exact (List.take_prefix _ _).eq_of_length_le hgood.2
      refine ⟨name :: later, ?_, ?_⟩
      · rw [hnames, hfileName, List.append_assoc]
        rfl
      · rw [keptItems_keep hnext hkeep hcopy hfinish]
        refine .cons hname (hname ▸ hfree) ?_
        rw [← hname, ← hstored]
        exact hlanded
  | _ => cases hloop

end Kept

/-- The names are collectable exactly where the items were. -/
theorem landed_archiveExt_iff {inbox inbox' : HashMap Text Bytes} {items : List Item}
    {names : List Text} (h : Landed inbox items names inbox') :
    (∀ name ∈ names, ¬archiveExt <:+ name) ↔ ∀ i ∈ items, LeafCollectable inbox i.name := by
  induction h with
  | nil => simp
  | @cons inbox inbox' i items name names found free later ih =>
      rw [List.forall_mem_cons, List.forall_mem_cons, ih, found_archiveExt_iff found free]
      refine and_congr_right fun hleaf => forall₂_congr fun j _ => ?_
      -- the file that is new is not called as the ending
      have hname := (found_archiveExt_iff found free).mpr hleaf
      have hother : inboxPath archiveExt ≠ inboxPath name := by
        intro he
        exact hname (inboxPath_injective he ▸ List.suffix_refl archiveExt)
      rw [LeafCollectable, LeafCollectable, AList.mem_insert, or_iff_right hother]

theorem landed_safe {inbox inbox' : HashMap Text Bytes} {items : List Item} {names : List Text}
    (h : Landed inbox items names inbox') (safe : ∀ i ∈ items, SafeLeaf i.name) :
    ∀ name ∈ names, SafeLeaf name ∧ inboxPath name ∈ inbox' := by
  have hfiles := h.files
  have hlen := hfiles.length_eq
  intro name hname
  obtain ⟨k, hk, rfl⟩ := List.getElem_of_mem hname
  have hk' : k < items.length := by omega
  obtain ⟨hthere, hcase⟩ := hfiles.get hk' hk
  have hsafe := safe _ (List.get_mem items ⟨k, hk'⟩)
  constructor
  · change SafeLeaf (names.get ⟨k, hk⟩)
    rcases hcase with hname | ⟨n, -, -, hname⟩
    · rw [hname]
      exact hsafe
    · rw [hname]
      exact safeLeaf_variant hsafe n
  · exact AList.lookup_isSome.mp (Option.isSome_iff_exists.mpr ⟨_, hthere⟩)

/-! ## What a peer can send -/

/-- The bytes of an archive out of their container. -/
def inner (gunzip unframe : Bytes → Source) (archive : Bytes) : Source :=
  if archive.take 2 = [0x1f, 0x8b] then gunzip archive else unframe archive

theorem extract_collectable_iff {env : ExtractEnv} {gunzip unframe : Bytes → Source}
    {archive : Bytes} {inbox inbox' : HashMap Text Bytes} {names : List Text}
    (hextract : extract env gunzip unframe archive inbox = (.ok names, inbox')) :
    (∀ name ∈ names, Collectable inbox' name) ↔
      ∀ i ∈ keptItems (.before (inner gunzip unframe archive)), LeafCollectable inbox i.name := by
  obtain ⟨later, hnames, hlanded⟩ := extractLoop_landed hextract
  rw [List.nil_append] at hnames
  subst hnames
  have hsafe := landed_safe hlanded (keptItems_safe _)
  rw [inner, ← landed_archiveExt_iff hlanded]
  refine forall₂_congr fun name hname => ?_
  exact collectable_iff (hsafe name hname).1 (hsafe name hname).2

theorem create_collectable_iff {h h' : QsHost} {name path : Text} {opens : Bool}
    (hcreate : h.create name opens = .ok (h', path)) :
    (∃ leaf, path = inboxPath leaf ∧ Collectable h'.inbox leaf) ↔
      ∀ leaf, safeLeaf name = some leaf → LeafCollectable h.inbox leaf := by
  obtain ⟨hfree, rfl⟩ := QsHost.create_spec hcreate
  obtain ⟨leaf, hleaf, hpath⟩ := QsHost.create_dest hcreate
  obtain ⟨found, hfound, hfoundSafe⟩ := nonClobbering_safe (fun path => decide (path ∈ h.inbox))
    (safeLeaf_safe hleaf)
  obtain rfl : path = inboxPath found := hpath.trans hfound
  have hthere : inboxPath found ∈ h.inbox.insert (inboxPath found) [] :=
    (AList.mem_insert _).mpr (.inl rfl)
  have hcollectable := collectable_iff hfoundSafe hthere
  have hname := found_archiveExt_iff hfound hfree
  rw [hleaf]
  constructor
  · rintro ⟨other, hother, hcollected⟩ leaf' hleaf'
    obtain rfl := inboxPath_injective hother
    cases hleaf'
    exact hname.mp (hcollectable.mp hcollected)
  · intro hall
    exact ⟨found, rfl, hcollectable.mpr (hname.mpr (hall leaf rfl))⟩

/-- **What arrives can be collected exactly where no name of it ends as an archive's**: the
members that an archive is unpacked into, and a file that is opened for a name. -/
theorem received_collectable_iff (env : ExtractEnv) (gunzip unframe : Bytes → Source)
    (archive : Bytes) (inbox inbox' : HashMap Text Bytes) (names : List Text) (h h' : QsHost)
    (name path : Text) (opens : Bool) :
    (extract env gunzip unframe archive inbox = (.ok names, inbox') →
      ((∀ name ∈ names, Collectable inbox' name) ↔
        ∀ i ∈ keptItems (.before (inner gunzip unframe archive)), LeafCollectable inbox i.name)) ∧
      (h.create name opens = .ok (h', path) →
        ((∃ leaf, path = inboxPath leaf ∧ Collectable h'.inbox leaf) ↔
          ∀ leaf, safeLeaf name = some leaf → LeafCollectable h.inbox leaf)) :=
  ⟨extract_collectable_iff, create_collectable_iff⟩

/-- An archive of one file, without compression. -/
theorem extract_one {i : Item} (safe : SafeLeaf i.name) (hread : i.file.length = i.size)
    (hkept : kept i = true) (fits : (asBytes i.name).length + 3 < 8 ^ 6 ∧ i.size < 8 ^ 11)
    (hsize : i.size ≤ maxExtractedBytes) :
    ∃ archive names inbox', extract goodDisk (⟨·, false⟩) (⟨·, false⟩) archive ∅ =
        (.ok names, inbox') ∧ Landed ∅ [i] names inbox' := by
  have hone : ∀ {p : Item → Prop}, p i → ∀ j ∈ [i], p j :=
    fun hp j hj => (List.mem_singleton.mp hj).symm ▸ hp
  have hfilter : [i].filter kept = [i] := List.filter_cons_of_pos hkept
  have hroom : HasRoom ∅ ([i].filter kept) := by
    rw [hfilter]
    exact hasRoom_of_length (show 0 + 1 ≤ 10000 by decide)
  obtain ⟨archive, built⟩ : ∃ archive, cpioArchive 0 0 [i] = .ok archive :=
    cpioArchive_total 0 (hone hread) (hone fits) (show 0 + 1 < 8 ^ 6 by decide)
  obtain ⟨names, inbox', hloop, hlanded⟩ : ∃ names inbox',
      extractLoop goodDisk (.before ⟨archive ++ [], false⟩) 0 0 [] ∅ = (.ok ([] ++ names), inbox') ∧
        Landed ∅ ([i].filter kept) names inbox' :=
    extractLoop_archive (fun _ => rfl) (fun _ => rfl) built (hone safe) (hone hread)
      (show 0 + 1 ≤ maxMembers by decide)
      (by rw [Nat.zero_add, List.map_singleton, List.sum_singleton]; exact hsize) hroom [] false
  rw [List.append_nil] at hloop
  refine ⟨archive, names, inbox', ?_, hfilter ▸ hlanded⟩
  unfold extract
  rw [ite_self]
  exact hloop

theorem create_one {name : Text} (safe : safeLeaf name = some name) :
    ∃ h' path, QsHost.create { id := 1 } name true = .ok (h', path) :=
  QsHost.create_ok (safe ▸ Option.some_ne_none _) (show 0 < 10000 by decide)

/-- A photo, of one byte. -/
def onePhoto : Item :=
  ⟨[1], "photo.jpg".toList, 1⟩

theorem received_onePhoto :
    (∃ archive names inbox', extract goodDisk (⟨·, false⟩) (⟨·, false⟩) archive ∅ =
        (.ok names, inbox') ∧ Landed ∅ [onePhoto] names inbox' ∧
      ((∀ name ∈ names, Collectable inbox' name) ↔
        ∀ i ∈ keptItems (.before (inner (⟨·, false⟩) (⟨·, false⟩) archive)),
          LeafCollectable ∅ i.name)) ∧
      ∃ h' path, QsHost.create { id := 1 } onePhoto.name true = .ok (h', path) ∧
        ((∃ leaf, path = inboxPath leaf ∧ Collectable h'.inbox leaf) ↔
          ∀ leaf, safeLeaf onePhoto.name = some leaf → LeafCollectable ∅ leaf) := by
  have hsafe : safeLeaf onePhoto.name = some onePhoto.name := by decide +kernel
  obtain ⟨archive, names, inbox', hextract, hlanded⟩ := extract_one (safeLeaf_safe hsafe) rfl
    (by decide) (by decide) (by decide)
  obtain ⟨h', path, hcreate⟩ := create_one hsafe
  obtain ⟨hunpacked, hcreated⟩ := received_collectable_iff goodDisk (⟨·, false⟩) (⟨·, false⟩)
    archive ∅ inbox' names { id := 1 } h' onePhoto.name path true
  exact ⟨⟨archive, names, inbox', hextract, hlanded, hunpacked hextract⟩,
    h', path, hcreate, hcreated hcreate⟩

/-- A file that somebody archived. -/
def oneArchive : Item :=
  ⟨[1], "x.cpio".toList, 1⟩

/-- It arrives in either way, and cannot be collected. -/
theorem oneArchive_not_collectable :
    (¬∀ (env : ExtractEnv) (gunzip unframe : Bytes → Source) (archive : Bytes)
        (inbox inbox' : HashMap Text Bytes) (names : List Text),
      extract env gunzip unframe archive inbox = (.ok names, inbox') →
        ∀ name ∈ names, Collectable inbox' name) ∧
      ¬∀ (h h' : QsHost) (name path : Text) (opens : Bool),
        h.create name opens = .ok (h', path) →
          ∃ leaf, path = inboxPath leaf ∧ Collectable h'.inbox leaf := by
  have hsafe : safeLeaf oneArchive.name = some oneArchive.name := by decide +kernel
  have hleaf : ¬LeafCollectable ∅ oneArchive.name := by
    intro hcollectable
    have hends : archiveExt <:+ oneArchive.name := ⟨['x'], rfl⟩
    exact absurd (hcollectable hends).1 (by decide)
  constructor
  · intro claim
    obtain ⟨archive, names, inbox', hextract, hlanded⟩ := extract_one (safeLeaf_safe hsafe) rfl
      (by decide) (by decide) (by decide)
    have hends : ¬∀ name ∈ names, ¬archiveExt <:+ name := by
      rw [landed_archiveExt_iff hlanded]
      exact fun hall => hleaf (hall _ List.mem_cons_self)
    have hnames := landed_safe hlanded fun i hi =>
      List.mem_singleton.mp hi ▸ safeLeaf_safe hsafe
    refine hends fun name hname => ?_
    obtain ⟨hnameSafe, hthere⟩ := hnames name hname
    exact (collectable_iff hnameSafe hthere).mp (claim _ _ _ _ _ _ _ hextract name hname)
  · intro claim
    obtain ⟨h', path, hcreate⟩ := create_one hsafe
    exact hleaf ((create_collectable_iff hcreate).mp (claim _ _ _ _ _ hcreate) _ hsafe)

end Sharingd
