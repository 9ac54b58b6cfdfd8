import RDrive.Depot
import RDrive.Slots

/-! A depot on the server's disk: what lies where below storage and authorized_keys, and
nothing else there. Each operation's work on the disk is its work on the depot. -/
namespace RDrive.Depot
open Crypto Header Session RoundTrip

structure Deliverable (S : Session) (slot : Slot) (held : Held) : Prop where
  plain : Path.Plain held.fileName
  bounded : held.content.length ≤ S.maxFileSize.toNat
  accepted : (sentHeader S slot.fileId held.fileName slot.fileKey held.content).validate S.maxFileSize =
    .ok ()
  fits : Fits S slot.fileId held.fileName slot.fileKey held.content
  even : readChunkSize ∣ held.content.length

/- The names in use; no two of them have the same hash. -/
structure Names (S : Session) where
  key : Bytes → Prop
  fileKey : String → Prop
  fileId : String → Prop
  keySize : ∀ k, key k → k.length = 32
  point : ∀ k, key k → S.ed25519.isPoint k = true
  fileKeySize : ∀ s, fileKey s → 0 < s.utf8ByteSize ∧ s.utf8ByteSize ≤ 512
  fileIdSize : ∀ s, fileId s → 32 ≤ s.utf8ByteSize ∧ s.utf8ByteSize ≤ 256
  distinct : Distinct S
  fileKeys : ∀ a b, fileKey a → fileKey b →
    S.hashes.sha256 (Postcard.utf8 a) = S.hashes.sha256 (Postcard.utf8 b) → a = b
  fileIds : ∀ a b, fileId a → fileId b →
    S.hashes.sha256 (Postcard.utf8 a) = S.hashes.sha256 (Postcard.utf8 b) → a = b

def Names.trade {S : Session} (N : Names S) : Trade where
  key := N.key
  fileKey := N.fileKey
  fileId := N.fileId
  fits := Deliverable S
  rekeyed _ _ _ fits := ⟨fits.plain,fits.bounded,fits.accepted,fits.fits,fits.even⟩

def metadata (S : Session) (slot : Slot) (held : Held) : MetadataFile :=
  UploadHeader.metadata S (sentHeader S slot.fileId held.fileName slot.fileKey held.content)

inductive Lies (S : Session) (d : Depot) : Path → Node → Prop where
  | listed {key} (member : key ∈ d.listed) : Lies S d (S.authPath key) .dir
  | stored {key} (member : key ∈ d.stored) : Lies S d (S.storagePath key) .dir
  | dir {slot held} (found : d.files slot = some held) : Lies S d (S.userDirPath slot) .dir
  | file {slot held} (found : d.files slot = some held) :
    Lies S d (S.filePath slot) (.file held.content)
  | meta_ {slot held} (found : d.files slot = some held) :
    Lies S d (S.metaPath slot) (.file (metadata S slot held).serialize)

def Inside (S : Session) (q : Path) : Prop :=
  (S.getStorageDir <+: q ∧ q ≠ S.getStorageDir) ∨
    (S.getAuthorizedClientDir <+: q ∧ q ≠ S.getAuthorizedClientDir)

structure Represents {S : Session} (N : Names S) (disk : Fs) (d : Depot) : Prop where
  rooted : disk.Rooted
  storage : disk.isDir S.getStorageDir = true
  authorised : disk.isDir S.getAuthorizedClientDir = true
  lies : ∀ q node, Lies S d q node → disk.get q = some node
  only : ∀ q node, Inside S q → disk.get q = some node → Lies S d q node
  sound : Sound N.trade d

variable {S : Session} {N : Names S} {d : Depot} {disk after : Fs} {slot other : Slot} {held : Held}
  {key old new : Bytes} {p q : Path} {node : Node} {open_ : Bool}

theorem uncollided (known : N.trade.Known slot) (too : N.trade.Known other) : S.Uncollided slot other where
  clientKey same := N.distinct.sha512 _ _ (N.keySize _ known.clientKey) (N.keySize _ too.clientKey) same
  fileKey same := congrArg Postcard.utf8 (N.fileKeys _ _ known.fileKey too.fileKey same)
  fileId same := congrArg Postcard.utf8 (N.fileIds _ _ known.fileId too.fileId same)

/- The depth tells files from directories. -/
theorem authLength (S : Session) (key : Bytes) : (S.authPath key).length = S.home.length + 3 := by
  simp [authPath,getAuthorizedClientDir]
theorem storageLength (S : Session) (key : Bytes) : (S.storagePath key).length = S.home.length + 3 := by
  simp [storagePath,getStorageDir]
theorem dirLength (S : Session) (slot : Slot) : (S.userDirPath slot).length = S.home.length + 4 := by
  simp [userDirPath,getStorageDir]
theorem fileLength (S : Session) (slot : Slot) : (S.filePath slot).length = S.home.length + 5 := by
  simp [filePath,dirLength]
theorem metaLength (S : Session) (slot : Slot) : (S.metaPath slot).length = S.home.length + 5 := by
  simp [metaPath,dirLength]

theorem liesDir (lies : Lies S d q node) (shallow : q.length ≠ S.home.length + 5) : node = .dir := by
  cases lies with
  | listed member => rfl
  | stored member => rfl
  | dir found => rfl
  | @file slot held found => exact absurd (fileLength S slot) shallow
  | @meta_ slot held found => exact absurd (metaLength S slot) shallow

theorem liesFile (lies : Lies S d q node) (deep : q.length = S.home.length + 5) : node ≠ .dir := by
  cases lies with
  | @listed key member => rw [authLength] at deep; omega
  | @stored key member => rw [storageLength] at deep; omega
  | @dir slot held found => rw [dirLength] at deep; omega
  | file found => simp
  | meta_ found => simp

theorem insideStorage (key : Bytes) (rest : Path) : Inside S (S.storagePath key ++ rest) := by
  refine .inl ⟨(List.prefix_append _ _).trans (List.prefix_append _ _),fun same => ?_⟩
  have depth := congrArg List.length same
  rw [List.length_append,storageLength] at depth
  simp [getStorageDir] at depth
  omega

theorem insideAuth (key : Bytes) (rest : Path) : Inside S (S.authPath key ++ rest) := by
  refine .inr ⟨(List.prefix_append _ _).trans (List.prefix_append _ _),fun same => ?_⟩
  have depth := congrArg List.length same
  rw [List.length_append,authLength] at depth
  simp [getAuthorizedClientDir] at depth
  omega

theorem insideSlot (below : S.storagePath slot.clientKey <+: q) : Inside S q := by
  obtain ⟨rest,rfl⟩ := below
  exact insideStorage _ _

theorem aboveDir (above : q <+: S.userDirPath slot) : q <+: S.getStorageDir ∨
    q = S.storagePath slot.clientKey ∨ q = S.userDirPath slot := by
  rw [(slotPaths S slot).1,List.prefix_concat_iff] at above
  rcases above with same | above
  · exact .inr (.inr (same.trans (slotPaths S slot).1.symm))
  · rw [storagePath,List.prefix_concat_iff] at above
    rcases above with same | above
    · exact .inr (.inl same)
    · exact .inl above

theorem aboveOnly (inside : Inside S q) : ¬ q <+: S.getStorageDir ∧ ¬ q <+: S.getAuthorizedClientDir := by
  have names : ∀ p : Path, p.length = S.home.length + 2 → ∀ r : Path, r.length = S.home.length + 2 →
      p <+: q → q ≠ p → ¬ q <+: r := by
    intro p size r depth above differ under
    have longer := above.length_le
    have shorter := under.length_le
    exact differ (above.eq_of_length (by omega)).symm
  have storage : S.getStorageDir.length = S.home.length + 2 := by simp [getStorageDir]
  have auth : S.getAuthorizedClientDir.length = S.home.length + 2 := by simp [getAuthorizedClientDir]
  rcases inside with ⟨above,differ⟩ | ⟨above,differ⟩
  · exact ⟨names _ storage _ storage above differ,names _ storage _ auth above differ⟩
  · exact ⟨names _ auth _ storage above differ,names _ auth _ auth above differ⟩

theorem dirAbove (rooted : disk.Rooted) (dir : disk.isDir p = true) (above : q <+: p) :
    disk.isDir q = true := by
  obtain ⟨rest,rfl⟩ := above
  cases rest with
  | nil => rwa [List.append_nil] at dir
  | cons x rest =>
    refine Fs.rootedAbove rooted (show x :: rest ≠ [] by simp) ?_
    simp only [Fs.isDir,beq_iff_eq] at dir
    simp [dir]

section
variable (holds : Represents N disk d)
include holds

theorem clearAt (inside : Inside S q) (shallow : q.length ≠ S.home.length + 5) :
    disk.get q = none ∨ disk.isDir q = true := by
  cases found : disk.get q with
  | none => exact .inl rfl
  | some node =>
    cases liesDir (holds.only q node inside found) shallow
    exact .inr (by simp [Fs.isDir,found])

theorem noDirAt (inside : Inside S q) (deep : q.length = S.home.length + 5) : disk.isDir q = false := by
  cases found : disk.get q with
  | none => simp [Fs.isDir,found]
  | some node =>
    have other := liesFile (holds.only q node inside found) deep
    simp [Fs.isDir,found,other]

theorem slotReady (slot : Slot) : SlotReady S disk slot := by
  obtain ⟨file,meta_⟩ := slotParts (S := S) slot
  refine ⟨fun q above => ?_,noDirAt holds (insideSlot file) (fileLength S slot),
    noDirAt holds (insideSlot meta_) (metaLength S slot)⟩
  rcases aboveDir above with outside | rfl | rfl
  · exact .inr (dirAbove holds.rooted holds.storage outside)
  · refine clearAt holds (insideSlot (List.prefix_refl _)) ?_
    rw [storageLength]
    omega
  · refine clearAt holds (insideSlot (slotInStorage slot)) ?_
    rw [dirLength]
    omega

theorem storedThere (found : d.files slot = some held) :
    Stored S disk slot (metadata S slot held) held.content where
  dir := by simp [Fs.isDir,holds.lies _ _ (.dir found)]
  file := Fs.contentOf.mpr (holds.lies _ _ (.file found))
  meta_ := Fs.contentOf.mpr (holds.lies _ _ (.meta_ found))

theorem missingThere (known : N.trade.Known slot) (missing : d.files slot = none) :
    disk.get (S.metaPath slot) = none := by
  by_contra there
  obtain ⟨node,found⟩ := Option.ne_none_iff_exists'.mp there
  have lies := holds.only _ _ (insideSlot (slotParts slot).2) found
  generalize same : S.metaPath slot = q at lies
  have deep := metaLength S slot
  rw [same] at deep
  cases lies with
  | @listed key member => rw [authLength] at deep; omega
  | @stored key member => rw [storageLength] at deep; omega
  | @dir other held found => rw [dirLength] at deep; omega
  | @file other held found => exact metaBeside S other slot same
  | @meta_ other held kept =>
    have only := slotSame (uncollided known (holds.sound.files other held kept).2.1) same
    rw [only,kept] at missing
    contradiction

end

theorem liesPushed (lies : Lies S d q node) (file : q ≠ S.filePath slot) (meta_ : q ≠ S.metaPath slot) :
    Lies S (d.next open_ (.push slot held)) q node := by
  cases lies with
  | listed member => exact .listed member
  | stored member => exact .stored (Finset.mem_insert_of_mem member)
  | @dir other kept found =>
    by_cases same : other = slot
    · subst same
      exact .dir (@pushedFile d other held open_)
    · have beside : (d.next open_ (.push slot held)).files other = some kept :=
        (Function.update_of_ne same ..).trans found
      exact .dir beside
  | @file other kept found =>
    have differ : other ≠ slot := fun same => file (by rw [same])
    exact .file ((Function.update_of_ne differ ..).trans found)
  | @meta_ other kept found =>
    have differ : other ≠ slot := fun same => meta_ (by rw [same])
    exact .meta_ ((Function.update_of_ne differ ..).trans found)

theorem sparedFound (spared : S.Spared slot disk after) (found : disk.get p = some node)
    (file : p ≠ S.filePath slot) (meta_ : p ≠ S.metaPath slot) : after.get p = some node := by
  rcases spared p file meta_ with same | ⟨missing,-,-⟩
  · exact same.trans found
  · rw [found] at missing
    contradiction

theorem sparedDir (ready : SlotReady S disk slot) (spared : S.Spared slot disk after)
    (dir : disk.get p = some .dir) : after.get p = some .dir := by
  refine sparedFound spared dir ?_ ?_
  · rintro rfl
    have free := ready.file
    simp [Fs.isDir,dir] at free
  · rintro rfl
    have free := ready.meta_
    simp [Fs.isDir,dir] at free

section
variable (holds : Represents N disk d) (spared : S.Spared slot disk after)
  (stored : Stored S after slot (metadata S slot held) held.content)
include holds spared stored

theorem pushedLies (meant : N.trade.meant d (.push slot held)) (rooted : after.Rooted)
    (lies : Lies S (d.next open_ (.push slot held)) q node) : after.get q = some node := by
  have ready := slotReady holds slot
  have mine : (d.next open_ (.push slot held)).files slot = some held := pushedFile
  cases lies with
  | listed member => exact sparedDir ready spared (holds.lies _ _ (.listed member))
  | @stored key member =>
    rcases Finset.mem_insert.mp member with rfl | among
    · have dir := dirAbove rooted stored.dir (slotInStorage slot)
      simpa [Fs.isDir] using dir
    · exact sparedDir ready spared (holds.lies _ _ (.stored among))
  | @dir other kept found =>
    by_cases same : other = slot
    · subst same
      simpa [Fs.isDir] using stored.dir
    · have was := (Function.update_of_ne same ..).symm.trans found
      exact sparedDir ready spared (holds.lies _ _ (.dir was))
  | @file other kept found =>
    by_cases same : other = slot
    · subst same
      cases Option.some.inj (mine.symm.trans found)
      exact Fs.contentOf.mp stored.file
    · have was := (Function.update_of_ne same ..).symm.trans found
      have apart := uncollided (holds.sound.files other kept was).2.1 meant.1
      refine sparedFound spared (holds.lies _ _ (.file was)) ?_ (metaBeside S other slot).symm
      exact fun paths => same (slotSame apart paths)
  | @meta_ other kept found =>
    by_cases same : other = slot
    · subst same
      cases Option.some.inj (mine.symm.trans found)
      exact Fs.contentOf.mp stored.meta_
    · have was := (Function.update_of_ne same ..).symm.trans found
      have apart := uncollided (holds.sound.files other kept was).2.1 meant.1
      refine sparedFound spared (holds.lies _ _ (.meta_ was)) (metaBeside S slot other) ?_
      exact fun paths => same (slotSame apart paths)

theorem pushedOnly (inside : Inside S q) (found : after.get q = some node) :
    Lies S (d.next open_ (.push slot held)) q node := by
  have mine : (d.next open_ (.push slot held)).files slot = some held := pushedFile
  by_cases file : q = S.filePath slot
  · subst file
    cases (Fs.contentOf.mp stored.file).symm.trans found
    exact .file mine
  by_cases meta_ : q = S.metaPath slot
  · subst meta_
    cases (Fs.contentOf.mp stored.meta_).symm.trans found
    exact .meta_ mine
  rcases spared q file meta_ with same | ⟨-,made,above⟩
  · exact liesPushed (holds.only q node inside (same.symm.trans found)) file meta_
  · cases made.symm.trans found
    rcases aboveDir above with outside | rfl | rfl
    · exact absurd outside (aboveOnly inside).1
    · exact .stored (Finset.mem_insert_self _ _)
    · exact .dir mine

end

theorem representsPushed (holds : Represents N disk d) (meant : N.trade.meant d (.push slot held))
    (rooted : after.Rooted) (spared : S.Spared slot disk after)
    (stored : Stored S after slot (metadata S slot held) held.content) :
    Represents N after (d.next open_ (.push slot held)) := by
  have keepsDir : ∀ {p : Path}, disk.isDir p = true → after.isDir p = true := by
    intro p dir
    simp only [Fs.isDir,beq_iff_eq] at dir ⊢
    exact sparedDir (slotReady holds slot) spared dir
  exact ⟨rooted,keepsDir holds.storage,keepsDir holds.authorised,
    fun _ _ => pushedLies holds spared stored meant rooted,fun _ _ => pushedOnly holds spared stored,
    soundNext holds.sound meant⟩

theorem representsRegistered (holds : Represents N disk d) (known : N.key key)
    (rooted : after.Rooted) (auth : after.isDir (S.authPath key) = true)
    (storage : after.isDir (S.storagePath key) = true)
    (spared : ∀ q, after.get q = disk.get q ∨ disk.get q = none ∧ after.get q = some .dir ∧
      (q <+: S.authPath key ∨ q <+: S.storagePath key)) :
    Represents N after {d with listed := insert key d.listed, stored := insert key d.stored} := by
  have got : ∀ {p : Path} {node : Node}, disk.get p = some node → after.get p = some node := by
    intro p node found
    rcases spared p with same | ⟨missing,-,-⟩
    · exact same.trans found
    · rw [found] at missing
      contradiction
  have keepsDir : ∀ {p : Path}, disk.isDir p = true → after.isDir p = true := by
    intro p dir
    simp only [Fs.isDir,beq_iff_eq] at dir ⊢
    exact got dir
  have sound : Sound N.trade {d with listed := insert key d.listed, stored := insert key d.stored} := by
    have kept := @soundNext N.trade d true (.register key) holds.sound known
    simp only [next,true_or,if_true] at kept
    exact kept
  refine ⟨rooted,keepsDir holds.storage,keepsDir holds.authorised,?_,?_,sound⟩
  · intro q node lies
    cases lies with
    | @listed other member =>
      rcases Finset.mem_insert.mp member with rfl | among
      · simpa [Fs.isDir] using auth
      · exact got (holds.lies _ _ (.listed among))
    | @stored other member =>
      rcases Finset.mem_insert.mp member with rfl | among
      · simpa [Fs.isDir] using storage
      · exact got (holds.lies _ _ (.stored among))
    | dir found => exact got (holds.lies _ _ (.dir found))
    | file found => exact got (holds.lies _ _ (.file found))
    | meta_ found => exact got (holds.lies _ _ (.meta_ found))
  · intro q node inside found
    rcases spared q with same | ⟨-,made,above⟩
    · cases holds.only q node inside (same.symm.trans found) with
      | listed member => exact .listed (Finset.mem_insert_of_mem member)
      | stored member => exact .stored (Finset.mem_insert_of_mem member)
      | dir held => exact .dir held
      | file held => exact .file held
      | meta_ held => exact .meta_ held
    · cases made.symm.trans found
      rcases above with above | above
      · rw [authPath,List.prefix_concat_iff] at above
        rcases above with rfl | outside
        · exact .listed (Finset.mem_insert_self _ _)
        · exact absurd outside (aboveOnly inside).2
      · rw [storagePath,List.prefix_concat_iff] at above
        rcases above with rfl | outside
        · exact .stored (Finset.mem_insert_self _ _)
        · exact absurd outside (aboveOnly inside).1

theorem liesListed (lies : Lies S d q node) (below : S.authPath key <+: q) :
    ∃ k ∈ d.listed, q = S.authPath k ∧ node = .dir := by
  have outside : ∀ slot : Slot, S.storagePath slot.clientKey <+: q → False :=
    fun slot inside => storageApart inside below
  cases lies with
  | @listed k member => exact ⟨k,member,rfl,rfl⟩
  | @stored k member => exact (storageApart (List.prefix_refl _) below).elim
  | @dir slot held found => exact (outside slot (slotInStorage slot)).elim
  | @file slot held found => exact (outside slot (slotParts slot).1).elim
  | @meta_ slot held found => exact (outside slot (slotParts slot).2).elim

theorem liesUnder (distinct : Distinct S) (sound : Sound N.trade d) (size : key.length = 32)
    (lies : Lies S d q node) (below : S.storagePath key <+: q) :
    q = S.storagePath key ∨ ∃ slot held, d.files slot = some held ∧ slot.clientKey = key := by
  have owner : ∀ {slot : Slot} {held : Held}, d.files slot = some held →
      S.storagePath slot.clientKey <+: q → slot.clientKey = key := by
    intro slot held found inside
    exact storageSame distinct (N.keySize _ (sound.files slot held found).2.1.clientKey) size inside below
  cases lies with
  | @listed k member => exact (storageApart below (List.prefix_refl _)).elim
  | @stored k member =>
    have depth : (S.storagePath key).length = (S.storagePath k).length := by
      rw [storageLength,storageLength]
    exact .inl (below.eq_of_length depth).symm
  | @dir slot held found => exact .inr ⟨slot,held,found,owner found (slotInStorage slot)⟩
  | @file slot held found => exact .inr ⟨slot,held,found,owner found (slotParts slot).1⟩
  | @meta_ slot held found => exact .inr ⟨slot,held,found,owner found (slotParts slot).2⟩

theorem liesMoved {rest : Path} (distinct : Distinct S) (sound : Sound N.trade d) (size : old.length = 32)
    (lies : Lies S d (S.storagePath old ++ rest) node) :
    Lies S (d.rotated old new) (S.storagePath new ++ rest) node := by
  generalize same : S.storagePath old ++ rest = q at lies
  have below : S.storagePath old <+: q := same ▸ List.prefix_append _ _
  have owner : ∀ {slot : Slot} {held : Held}, d.files slot = some held →
      S.storagePath slot.clientKey <+: q → slot.clientKey = old := by
    intro slot held found inside
    exact storageSame distinct (N.keySize _ (sound.files slot held found).2.1.clientKey) size inside below
  have moved : ∀ {slot : Slot} {held : Held}, d.files slot = some held → slot.clientKey = old →
      (d.rotated old new).files {slot with clientKey := new} = some held := by
    intro slot held found mine
    subst mine
    exact (if_pos rfl).trans found
  cases lies with
  | @listed k member => exact (storageApart below (List.prefix_refl _)).elim
  | @stored k member =>
    have depth := congrArg List.length same
    rw [List.length_append,storageLength,storageLength] at depth
    cases List.eq_nil_of_length_eq_zero (show rest.length = 0 by omega)
    rw [List.append_nil]
    exact .stored (Finset.mem_insert_self _ _)
  | @dir slot held found =>
    have mine := owner found (slotInStorage slot)
    rw [(slotPaths S slot).1,mine] at same
    cases List.append_cancel_left same
    exact (slotPaths S {slot with clientKey := new}).1 ▸ .dir (moved found mine)
  | @file slot held found =>
    have mine := owner found (slotParts slot).1
    rw [(slotPaths S slot).2.2,mine] at same
    cases List.append_cancel_left same
    exact (slotPaths S {slot with clientKey := new}).2.2 ▸ .file (moved found mine)
  | @meta_ slot held found =>
    have mine := owner found (slotParts slot).2
    rw [(slotPaths S slot).2.1,mine] at same
    cases List.append_cancel_left same
    exact (slotPaths S {slot with clientKey := new}).2.1 ▸ .meta_ (moved found mine)

theorem liesStays (lies : Lies S d q node)
    (storage : ∀ k, k = old ∨ k = new → ¬ S.storagePath k <+: q)
    (auth : ∀ k, k = old ∨ k = new → ¬ S.authPath k <+: q) : Lies S (d.rotated old new) q node := by
  have kept : ∀ {slot : Slot} {held : Held}, d.files slot = some held →
      S.storagePath slot.clientKey <+: q → (d.rotated old new).files slot = some held := by
    intro slot held found inside
    have notNew : slot.clientKey ≠ new := fun same => storage _ (.inr same) inside
    have notOld : slot.clientKey ≠ old := fun same => storage _ (.inl same) inside
    exact (if_neg notNew).trans ((if_neg notOld).trans found)
  cases lies with
  | @listed k member =>
    have notOld : k ≠ old := fun same => auth k (.inl same) (List.prefix_refl _)
    exact .listed (Finset.mem_insert_of_mem (Finset.mem_erase.mpr ⟨notOld,member⟩))
  | @stored k member =>
    have notOld : k ≠ old := fun same => storage k (.inl same) (List.prefix_refl _)
    exact .stored (Finset.mem_insert_of_mem (Finset.mem_erase.mpr ⟨notOld,member⟩))
  | @dir slot held found => exact .dir (kept found (slotInStorage slot))
  | @file slot held found => exact .file (kept found (slotParts slot).1)
  | @meta_ slot held found => exact .meta_ (kept found (slotParts slot).2)

section
variable (meant : N.trade.meant d (.rotate old new)) (renamed : S.Renamed disk after .works .works old new)
include meant renamed

theorem rotatedOutside (beside : ¬ Inside S q) : after.get q = disk.get q := by
  obtain ⟨knownOld,knownNew,differ,-⟩ := meant
  have storage : ∀ k, ¬ S.storagePath k <+: q := by
    rintro k ⟨rest,rfl⟩
    exact beside (insideStorage k rest)
  have auth : ∀ k, ¬ S.authPath k <+: q := by
    rintro k ⟨rest,rfl⟩
    exact beside (insideAuth k rest)
  rw [renamedGet N.distinct (N.keySize _ knownOld) (N.keySize _ knownNew) differ renamed,
    if_neg (storage _),if_neg (storage _),if_neg (auth _),if_neg (auth _)]

theorem rotatedRooted (rooted : disk.Rooted) : after.Rooted := by
  obtain ⟨knownOld,knownNew,differ,-⟩ := meant
  have sizeOld := N.keySize _ knownOld
  have sizeNew := N.keySize _ knownNew
  have apartAuth : ¬ S.authPath new <+: S.authPath old :=
    fun above => differ (authSame N.distinct sizeOld sizeNew (List.prefix_refl _) above)
  have apartFiles : ¬ S.storagePath new <+: S.storagePath old :=
    fun above => differ (storageSame N.distinct sizeOld sizeNew (List.prefix_refl _) above)
  rw [renamed.after]
  exact Fs.renameRooted (Fs.renameRooted rooted (authInner old) (authInner new) apartAuth)
    (storageInner old) (storageInner new) apartFiles

theorem rotatedOther (known : N.key key) (notOld : key ≠ old) (notNew : key ≠ new)
    (mine : S.storagePath key <+: q ∨ S.authPath key <+: q) : after.get q = disk.get q := by
  obtain ⟨knownOld,knownNew,differ,-⟩ := meant
  exact renamedOthers N.distinct (N.keySize _ knownOld) (N.keySize _ knownNew) differ renamed
    (N.keySize _ known) notOld notNew mine

theorem rotatedSlot {rest : Path} (sound : Sound N.trade d)
    (found : (d.rotated old new).files slot = some held)
    (was : ∀ k, d.files ⟨k,slot.fileKey,slot.fileId⟩ = some held →
      disk.get (S.storagePath k ++ rest) = some node) :
    after.get (S.storagePath slot.clientKey ++ rest) = some node := by
  rcases rotatedFile found with ⟨rfl,before⟩ | ⟨notNew,notOld,before⟩
  · obtain ⟨knownOld,knownNew,differ,-⟩ := meant
    have files := renamedFiles N.distinct (N.keySize _ knownOld) (N.keySize _ knownNew) differ renamed
    exact (files _).trans (was old before)
  · have known := (sound.files slot held before).2.1.clientKey
    exact (rotatedOther meant renamed known notOld notNew (.inl (List.prefix_append _ _))).trans
      (was _ before)

end

section
variable (holds : Represents N disk d) (meant : N.trade.meant d (.rotate old new)) (there : old ∈ d.stored)
include holds meant there

theorem keysRename : (disk.rename (S.authPath old) (S.authPath new)).1 = true := by
  obtain ⟨knownOld,knownNew,differ,ready⟩ := meant
  have apart : ¬ S.authPath old <+: S.authPath new := fun above => differ
    (authSame N.distinct (N.keySize _ knownOld) (N.keySize _ knownNew) above (List.prefix_refl _))
  have listed := holds.lies _ _ (.listed (ready there).1)
  refine Fs.renameOnto ?_ apart (by simp [Fs.isDir,listed]) ?_ ?_
  · rw [authPath,List.dropLast_concat]
    exact holds.authorised
  · refine clearAt holds ?_ (by rw [authLength]; omega)
    rw [← List.append_nil (S.authPath new)]
    exact insideAuth new []
  · intro rest some_
    by_contra found
    obtain ⟨node,found⟩ := Option.ne_none_iff_exists'.mp found
    obtain ⟨k,-,same,-⟩ := liesListed (holds.only _ _ (insideAuth new rest) found) (List.prefix_append _ _)
    have depth := congrArg List.length same
    rw [List.length_append,authLength,authLength] at depth
    exact some_ (List.eq_nil_of_length_eq_zero (by omega))

theorem newVacant {rest : Path} (some_ : rest ≠ []) : disk.get (S.storagePath new ++ rest) = none := by
  obtain ⟨-,knownNew,-,ready⟩ := meant
  by_contra found
  obtain ⟨node,found⟩ := Option.ne_none_iff_exists'.mp found
  have lies := holds.only _ _ (insideStorage new rest) found
  rcases liesUnder N.distinct holds.sound (N.keySize _ knownNew) lies (List.prefix_append _ _) with
    same | ⟨slot,held,kept,mine⟩
  · exact some_ (List.append_right_eq_self.mp same)
  · rw [(ready there).2 slot mine] at kept
    contradiction

theorem filesRename : ((disk.rename (S.authPath old) (S.authPath new)).2.rename (S.storagePath old)
    (S.storagePath new)).1 = true := by
  have vacant := @newVacant S N d disk old new holds meant there
  obtain ⟨knownOld,knownNew,differ,-⟩ := meant
  have apart : ¬ S.storagePath old <+: S.storagePath new := fun above => differ
    (storageSame N.distinct (N.keySize _ knownOld) (N.keySize _ knownNew) above (List.prefix_refl _))
  have still : ∀ q, (∀ k, ¬ S.authPath k <+: q) →
      (disk.rename (S.authPath old) (S.authPath new)).2.get q = disk.get q := fun q beside =>
    Fs.renameBeside disk (authInner old) (authInner new) (authDepth old new) (beside _) (beside _)
  have below : ∀ k rest, (disk.rename (S.authPath old) (S.authPath new)).2.get (S.storagePath k ++ rest) =
      disk.get (S.storagePath k ++ rest) :=
    fun k rest => still _ fun _ above => storageApart (List.prefix_append _ _) above
  have here : ∀ k, (disk.rename (S.authPath old) (S.authPath new)).2.get (S.storagePath k) =
      disk.get (S.storagePath k) := by
    intro k
    have same := below k []
    rwa [List.append_nil] at same
  refine Fs.renameOnto ?_ apart ?_ ?_ ?_
  · rw [storagePath,List.dropLast_concat]
    unfold Fs.isDir
    rw [still _ fun k => authOutside k (List.prefix_refl _)]
    exact holds.storage
  · unfold Fs.isDir
    rw [here]
    simp [holds.lies _ _ (.stored there)]
  · unfold Fs.isDir
    rw [here]
    refine clearAt holds ?_ (by rw [storageLength]; omega)
    rw [← List.append_nil (S.storagePath new)]
    exact insideStorage new []
  · intro rest some_
    rw [below]
    exact vacant some_

theorem rotationRenames :
    let keys := disk.rename (S.authPath old) (S.authPath new)
    let files := keys.2.rename (S.storagePath old) (S.storagePath new)
    keys.1 = true ∧ files.1 = true :=
  ⟨keysRename holds meant there,filesRename holds meant there⟩

variable (renamed : S.Renamed disk after .works .works old new)
include renamed

theorem rotatedLies (lies : Lies S (d.rotated old new) q node) : after.get q = some node := by
  cases lies with
  | @listed k member =>
    by_cases mine : k = new
    · subst mine
      obtain ⟨knownOld,knownNew,differ,ready⟩ := meant
      exact (renamedListed N.distinct (N.keySize _ knownOld) (N.keySize _ knownNew) differ renamed).1.trans
        (holds.lies _ _ (.listed (ready there).1))
    · obtain ⟨notOld,was⟩ := Finset.mem_erase.mp ((Finset.mem_insert.mp member).resolve_left mine)
      exact (rotatedOther meant renamed (holds.sound.listed k was) notOld mine
        (.inr (List.prefix_refl _))).trans (holds.lies _ _ (.listed was))
  | @stored k member =>
    by_cases mine : k = new
    · subst mine
      obtain ⟨knownOld,knownNew,differ,-⟩ := meant
      have moved := renamedFiles N.distinct (N.keySize _ knownOld) (N.keySize _ knownNew) differ renamed []
      rw [List.append_nil,List.append_nil] at moved
      exact moved.trans (holds.lies _ _ (.stored there))
    · obtain ⟨notOld,was⟩ := Finset.mem_erase.mp ((Finset.mem_insert.mp member).resolve_left mine)
      exact (rotatedOther meant renamed (holds.sound.stored k was) notOld mine
        (.inl (List.prefix_refl _))).trans (holds.lies _ _ (.stored was))
  | @dir slot held found =>
    rw [(slotPaths S slot).1]
    refine rotatedSlot meant renamed holds.sound found fun k was => ?_
    exact (slotPaths S ⟨k,slot.fileKey,slot.fileId⟩).1 ▸ holds.lies _ _ (.dir was)
  | @file slot held found =>
    rw [(slotPaths S slot).2.2]
    refine rotatedSlot meant renamed holds.sound found fun k was => ?_
    exact (slotPaths S ⟨k,slot.fileKey,slot.fileId⟩).2.2 ▸ holds.lies _ _ (.file was)
  | @meta_ slot held found =>
    rw [(slotPaths S slot).2.1]
    refine rotatedSlot meant renamed holds.sound found fun k was => ?_
    exact (slotPaths S ⟨k,slot.fileKey,slot.fileId⟩).2.1 ▸ holds.lies _ _ (.meta_ was)

theorem rotatedOnly (inside : Inside S q) (found : after.get q = some node) :
    Lies S (d.rotated old new) q node := by
  obtain ⟨knownOld,knownNew,differ,-⟩ := meant
  have sizeOld := N.keySize _ knownOld
  rw [renamedGet N.distinct sizeOld (N.keySize _ knownNew) differ renamed] at found
  split at found
  · rename_i under
    obtain ⟨rest,rfl⟩ := under
    rw [List.drop_left] at found
    exact liesMoved N.distinct holds.sound sizeOld (holds.only _ _ (insideStorage old rest) found)
  rename_i notNewFiles
  split at found
  · contradiction
  rename_i notOldFiles
  split at found
  · rename_i under
    obtain ⟨rest,rfl⟩ := under
    rw [List.drop_left] at found
    obtain ⟨k,-,same,rfl⟩ := liesListed (holds.only _ _ (insideAuth old rest) found)
      (List.prefix_append _ _)
    have depth := congrArg List.length same
    rw [List.length_append,authLength,authLength] at depth
    cases List.eq_nil_of_length_eq_zero (show rest.length = 0 by omega)
    rw [List.append_nil]
    exact .listed (Finset.mem_insert_self _ _)
  rename_i notNewList
  split at found
  · contradiction
  rename_i notOldList
  refine liesStays (holds.only q node inside found) ?_ ?_
  · rintro k (rfl | rfl)
    · exact notOldFiles
    · exact notNewFiles
  · rintro k (rfl | rfl)
    · exact notOldList
    · exact notNewList

theorem representsRotated : Represents N after (d.rotated old new) where
  rooted := rotatedRooted meant renamed holds.rooted
  storage := by
    unfold Fs.isDir
    rw [rotatedOutside meant renamed fun inside => (aboveOnly inside).1 (List.prefix_refl _)]
    exact holds.storage
  authorised := by
    unfold Fs.isDir
    rw [rotatedOutside meant renamed fun inside => (aboveOnly inside).2 (List.prefix_refl _)]
    exact holds.authorised
  lies _ _ := rotatedLies holds meant there renamed
  only _ _ := rotatedOnly holds meant there renamed
  sound := soundRotated holds.sound meant.2.1

end

theorem counted (holds : Represents N disk d) : disk.countDirs S.getStorageDir = some d.stored.card := by
  unfold Fs.countDirs
  rw [if_pos holds.storage,List.countP_eq_length_filter]
  congr 1
  rw [← List.toFinset_card_of_nodup ((List.nodup_dedup _).filter _)]
  have injective : Set.InjOn S.storagePath d.stored := by
    intro a memberA b memberB same
    exact storageDistinct N.distinct (N.keySize _ (holds.sound.stored a memberA))
      (N.keySize _ (holds.sound.stored b memberB)) same
  rw [← Finset.card_image_of_injOn injective]
  congr 1
  ext q
  simp only [List.mem_toFinset,List.mem_filter,List.mem_dedup,Finset.mem_image,decide_eq_true_eq]
  constructor
  · rintro ⟨-,parent,some_,dir⟩
    obtain ⟨front,last,rfl⟩ := (List.eq_nil_or_concat q).resolve_left some_
    rw [List.concat_eq_append,List.dropLast_concat] at parent
    subst parent
    rw [List.concat_eq_append] at dir ⊢
    have depth : (S.getStorageDir ++ [last]).length = S.home.length + 3 := by simp [getStorageDir]
    have inside : Inside S (S.getStorageDir ++ [last]) := .inl ⟨List.prefix_append _ _,by simp⟩
    simp only [Fs.isDir,beq_iff_eq] at dir
    have lies := holds.only _ _ inside dir
    generalize same : S.getStorageDir ++ [last] = q at lies depth
    cases lies with
    | @listed k member =>
      exact (authOutside k (same ▸ List.prefix_append _ _) (List.prefix_refl _)).elim
    | @stored k member => exact ⟨k,member,rfl⟩
    | @dir slot held found => rw [dirLength] at depth; omega
  · rintro ⟨key,member,rfl⟩
    have found := holds.lies _ _ (.stored member)
    refine ⟨?_,by rw [storagePath,List.dropLast_concat],storageInner key,by simp [Fs.isDir,found]⟩
    rw [Fs.get,if_neg (storageInner key),Option.map_eq_some_iff] at found
    obtain ⟨e,among,-⟩ := found
    have named := List.find?_some among
    exact List.mem_map.mpr ⟨e,List.mem_of_find?_eq_some among,of_decide_eq_true named⟩

end RDrive.Depot
