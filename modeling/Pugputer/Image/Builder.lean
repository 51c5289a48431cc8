import Pugputer.Basic

namespace Pugputer.Image

/-! The host's FAT16 image builder.  A vector of bytes is a function from offsets;
bytes never written are zero.  `none` stands for what the C++ leaves undefined:
a division by zero, or a store outside a vector. -/

def kSectorSize : Nat := 512

abbrev Bytes := Nat → Byte

def put (buf : Bytes) (off : Nat) (bytes : List Byte) : Bytes := fun i =>
  if off ≤ i ∧ i < off + bytes.length then bytes.getD (i - off) 0 else buf i

def le16 (v : Word) : List Byte := [loByte v, hiByte v]

def le32 (v : BitVec 32) : List Byte :=
  le16 (v.extractLsb' 0 16) ++ le16 (v.extractLsb' 16 16)

def putLe16 (buf : Bytes) (off : Nat) (v : Word) : Bytes := put buf off (le16 v)

def putLe32 (buf : Bytes) (off : Nat) (v : BitVec 32) : Bytes := put buf off (le32 v)

def text (s : String) : List Byte := s.toList.map fun c => BitVec.ofNat 8 c.toNat

/-- `std::toupper` in the C locale. -/
def toUpper (c : Byte) : Byte := if 0x61#8 ≤ c ∧ c ≤ 0x7A#8 then c - 0x20#8 else c

def space : Byte := 0x20#8
def dot : Byte := 0x2E#8
def slash : Byte := 0x2F#8

/-- 8.3 short name: "BASIC.COM" is "BASIC   COM" on disk. -/
def shortName (name : List Byte) : List Byte :=
  let base := name.takeWhile (· ≠ dot)
  let ext := (name.dropWhile (· ≠ dot)).drop 1
  ((base.take 8).map toUpper).rightpad 8 space ++ ((ext.take 3).map toUpper).rightpad 3 space

def setFat16Entry (fat : Bytes) (cluster value : Word) : Bytes :=
  putLe16 fat (cluster.toNat * 2) value

structure Fat16File where
  name : List Byte
  data : List Byte

structure Args where
  dosPayload : List Byte
  files : List Fat16File
  totalSectors : BitVec 32
  sectorsPerCluster : Byte
  rootEntryCount : Word
  numFats : Byte

/-- The layout, in the builder's own 32-bit arithmetic. -/
structure Layout where
  reservedSectors : Word
  rootDirSectors : BitVec 32
  sectorsPerFat : BitVec 32
  fatLba : BitVec 32
  rootLba : BitVec 32
  dataLba : BitVec 32
  totalClusters : BitVec 32

namespace Args

variable (args : Args)

def layout : Option Layout :=
  let reservedSectors : Word :=
    BitVec.ofNat 16 (1 + (args.dosPayload.length + kSectorSize - 1) / kSectorSize)
  let rootDirSectors : BitVec 32 :=
    BitVec.ofNat 32 ((args.rootEntryCount.toNat * 32 + kSectorSize - 1) / kSectorSize)
  -- Microsoft's FAT-size formula.
  let tmp1 := args.totalSectors - (reservedSectors.setWidth 32 + rootDirSectors)
  let tmp2 := 256#32 * args.sectorsPerCluster.setWidth 32 + args.numFats.setWidth 32
  if tmp2 = 0 then none
  else
    let sectorsPerFat := (tmp1 + tmp2 - 1) / tmp2
    let fatLba := reservedSectors.setWidth 32
    let rootLba := fatLba + args.numFats.setWidth 32 * sectorsPerFat
    let dataLba := rootLba + rootDirSectors
    let dataSectors := args.totalSectors - dataLba
    if args.sectorsPerCluster = 0 then none
    else some {
      reservedSectors, rootDirSectors, sectorsPerFat, fatLba, rootLba, dataLba
      totalClusters := dataSectors / args.sectorsPerCluster.setWidth 32 }

def bytesPerCluster : Nat := args.sectorsPerCluster.toNat * kSectorSize

def clustersFor (bytes : Nat) : Nat :=
  (bytes + args.bytesPerCluster - 1) / args.bytesPerCluster

/-- The boot sector's parameter block. -/
def bootSector (l : Layout) : Bytes :=
  let image : Bytes := fun _ => 0
  let image := put image 0 [0xEB#8, 0x3C#8, 0x90#8]
  let image := put image 3 (text "PUGPUTR ")
  let image := putLe16 image 0x0B (BitVec.ofNat 16 kSectorSize)
  let image := put image 0x0D [args.sectorsPerCluster]
  let image := putLe16 image 0x0E l.reservedSectors
  let image := put image 0x10 [args.numFats]
  let image := putLe16 image 0x11 args.rootEntryCount
  let image := putLe16 image 0x13
    (if args.totalSectors ≤ 0xFFFF#32 then args.totalSectors.setWidth 16 else 0)
  let image := put image 0x15 [0xF8#8]
  let image := putLe16 image 0x16 (l.sectorsPerFat.setWidth 16)
  let image := putLe16 image 0x18 0
  let image := putLe16 image 0x1A 0
  let image := putLe32 image 0x1C 0
  let image := putLe32 image 0x20 (if 0xFFFF#32 < args.totalSectors then args.totalSectors else 0)
  let image := put image 0x24 [0x80#8]
  let image := put image 0x25 [0]
  let image := put image 0x26 [0x29#8]
  let image := putLe32 image 0x27 0
  let image := put image 0x2B (text "PUGPUTER   ")
  let image := put image 0x36 (text "FAT16   ")
  put image 0x1FE [0x55#8, 0xAA#8]

end Args

/-! The directory tree. -/

structure Dir where
  entries : List Byte := []
  /-- First cluster, 0 for the root. -/
  cluster : Word := 0
  /-- Name and index of each subdirectory. -/
  subdirs : List (List Byte × Nat) := []
  deriving Inhabited

/-- The child called `part`, the last such if there are several, 0 if none. -/
def Dir.child (d : Dir) (part : List Byte) : Nat :=
  d.subdirs.foldl (fun child sd => if sd.1 = part then sd.2 else child) 0

/-- The subdirectory `part` of `dirs[dir]`, created on first mention. -/
def enter (dirs : List Dir) (dir : Nat) (part : List Byte) : List Dir × Nat :=
  match (dirs.getD dir default).child part with
  | 0 =>
      let child := dirs.length
      (dirs.modify dir (fun d => { d with subdirs := d.subdirs ++ [(part, child)] }) ++ [{}],
        child)
  | child => (dirs, child)

/-- Walks a file's name; `part` is what has been read of the current component. -/
def place (dirs : List Dir) (dir : Nat) (part : List Byte) :
    List Byte → List Dir × Nat × List Byte
  | [] => (dirs, dir, part)
  | c :: rest =>
      if c = slash then
        if part = [] then place dirs dir [] rest
        else
          let (dirs, child) := enter dirs dir (part.map toUpper)
          place dirs child [] rest
      else place dirs dir (part ++ [c]) rest

/-- The first pass: every file's directory and leaf name. -/
def placeAll (dirs : List Dir) : List Fat16File → List Dir × List (Nat × List Byte)
  | [] => (dirs, [])
  | f :: rest =>
      let (dirs, dir, leaf) := place dirs 0 [] f.name
      let (dirs, placed) := placeAll dirs rest
      (dirs, (dir, leaf) :: placed)

def entryCount (dirs : List Dir) (placed : List (Nat × List Byte)) (d : Nat) : Nat :=
  (dirs.getD d default).subdirs.length + (if d = 0 then 0 else 2) +
    placed.countP (·.1 = d)

/-- The index of the directory that holds `dirs[x]`. -/
def parent (dirs : List Dir) (x : Nat) : Nat :=
  (List.range dirs.length).foldl
    (fun found d => if (dirs.getD d default).subdirs.any (·.2 = x) then d else found) 0

def entry (name : List Byte) (attr : Byte) (cluster : Word) (size : BitVec 32) : List Byte :=
  let short :=
    if name = [dot] then [dot].rightpad 11 space
    else if name = [dot, dot] then [dot, dot].rightpad 11 space
    else shortName name
  short ++ [attr] ++ List.replicate 14 0 ++ le16 cluster ++ le32 size

def addEntry (dirs : List Dir) (d : Nat) (name : List Byte) (attr : Byte) (cluster : Word)
    (size : BitVec 32) : List Dir :=
  dirs.modify d fun dir => { dir with entries := dir.entries ++ entry name attr cluster size }

/-! Clusters. -/

structure Alloc where
  fat : Bytes
  nextCluster : Word := 2

/-- Chains `n` consecutive clusters from `first` on. -/
def chainFrom (fat : Bytes) (first : Word) : Nat → Bytes
  | 0 => fat
  | n + 1 =>
      chainFrom (setFat16Entry fat first (if n = 0 then 0xFFFF#16 else first + 1)) (first + 1) n

/-- Allocates `n` consecutive clusters; the first one, or 0 if `n` is 0. -/
def Alloc.allocate (a : Alloc) (n : Nat) : Word × Alloc :=
  if n = 0 then (0, a)
  else
    (a.nextCluster, {
      fat := chainFrom a.fat a.nextCluster n
      nextCluster := a.nextCluster + BitVec.ofNat 16 n })

namespace Args

variable (args : Args)

/-- Every directory but the root gets its clusters, in order. -/
def allocateDirs (placed : List (Nat × List Byte)) (counted : List Dir) :
    Nat → List Dir → Alloc → List Dir × Alloc
  | _, [], a => ([], a)
  | d, dir :: rest, a =>
      let (cluster, a) :=
        if d = 0 then (0, a)
        else a.allocate (args.clustersFor (entryCount counted placed d * 32))
      let (rest, a) := allocateDirs placed counted (d + 1) rest a
      ({ dir with cluster } :: rest, a)

end Args

/-- "." and ".." of every directory but the root. -/
def addDots (dirs : List Dir) : List Dir :=
  ((List.range dirs.length).drop 1).foldl
    (fun dirs' d =>
      let cluster := (dirs.getD d default).cluster
      let above := (dirs.getD (parent dirs d) default).cluster
      addEntry (addEntry dirs' d [dot] 0x10#8 cluster 0) d [dot, dot] 0x10#8 above 0)
    dirs

/-- The directories from `x` up that are not yet linked, lowest first. -/
def unlinked (dirs : List Dir) (linked : List Nat) : Nat → Nat → List Nat
  | 0, _ => []
  | fuel + 1, x =>
      if x = 0 ∨ x ∈ linked then [] else x :: unlinked dirs linked fuel (parent dirs x)

/-- Enters `dirs[x]` in its parent. -/
def link (shape : List Dir) (dirs : List Dir) (x : Nat) : List Dir :=
  ((dirs.getD (parent shape x) default).subdirs.filter (·.2 = x)).foldl
    (fun dirs sd =>
      addEntry dirs (parent shape x) sd.1 0x10#8 (dirs.getD x default).cluster 0)
    dirs

structure Filling where
  image : Bytes
  dirs : List Dir
  linked : List Nat := []
  alloc : Alloc

namespace Args

variable (args : Args)

/-- The LBA the builder writes a cluster at. -/
def clusterLba (l : Layout) (cluster : Nat) : Nat :=
  l.dataLba.toNat + (cluster - 2) * args.sectorsPerCluster.toNat

/-- The second pass, for one file: link its directories, then place its data. -/
def addFile (l : Layout) (s : Filling) (f : Fat16File) (d : Nat) (leaf : List Byte) : Filling :=
  let chain := unlinked s.dirs s.linked s.dirs.length d
  let dirs := chain.reverse.foldl (link s.dirs) s.dirs
  let n := if f.data = [] then 0 else args.clustersFor f.data.length
  let (startCluster, alloc) := s.alloc.allocate n
  let dirs := addEntry dirs d leaf 0x20#8 startCluster (BitVec.ofNat 32 f.data.length)
  let image := (List.range n).foldl
    (fun image c =>
      put image (args.clusterLba l (startCluster.toNat + c) * kSectorSize)
        ((f.data.drop (c * args.bytesPerCluster)).take args.bytesPerCluster))
    s.image
  { image, dirs, alloc, linked := s.linked ++ chain }

def addFiles (l : Layout) (s : Filling) : List (Fat16File × Nat × List Byte) → Filling
  | [] => s
  | (f, d, leaf) :: rest => addFiles l (args.addFile l s f d leaf) rest

/-- The clusters the directories and files need. -/
def clustersNeeded (dirs : List Dir) (placed : List (Nat × List Byte)) : Nat :=
  (((List.range dirs.length).drop 1).map fun d =>
    args.clustersFor (entryCount dirs placed d * 32)).foldl Nat.add 0 +
  (args.files.map fun f => args.clustersFor f.data.length).foldl Nat.add 0

/-- What the builder writes once it has accepted its arguments. -/
def write (l : Layout) (dirs : List Dir) (placed : List (Nat × List Byte)) : Bytes :=
  let image := put (args.bootSector l) kSectorSize args.dosPayload
  let fat := setFat16Entry (fun _ => 0) 0 0xFFF8#16
  let fat := setFat16Entry fat 1 0xFFFF#16
  let (dirs, alloc) := args.allocateDirs placed dirs 0 dirs { fat }
  let filled := args.addFiles l { image, dirs := addDots dirs, alloc } (args.files.zip placed)
  let image := ((List.range filled.dirs.length).drop 1).foldl
    (fun image d =>
      let dir := filled.dirs.getD d default
      put image (args.clusterLba l dir.cluster.toNat * kSectorSize) dir.entries)
    filled.image
  let image := (List.range args.numFats.toNat).foldl
    (fun image copy =>
      put image ((l.fatLba.toNat + copy * l.sectorsPerFat.toNat) * kSectorSize)
        ((List.range (l.sectorsPerFat.toNat * kSectorSize)).map filled.alloc.fat))
    image
  let rootDir := put (fun _ => 0) 0 (filled.dirs.getD 0 default).entries
  put image (l.rootLba.toNat * kSectorSize)
    ((List.range (l.rootDirSectors.toNat * kSectorSize)).map rootDir)

end Args

/-- What came of a call: the image, or the text of its error. -/
def buildFat16Image (args : Args) : Option (Except String Bytes) := do
  let l ← args.layout
  let clusters := l.totalClusters.toNat
  if clusters < 4085 ∨ 65524 < clusters then
    return .error ("resulting cluster count (" ++ toString clusters ++
      ") is outside FAT16's valid range (4085-65524); adjust total_sectors/sectors_per_cluster")
  if args.totalSectors.toNat * kSectorSize < kSectorSize + args.dosPayload.length then none
  let (dirs, placed) := placeAll [{}] args.files
  if args.rootEntryCount.toNat < entryCount dirs placed 0 then
    return .error ("too many entries for the root directory (" ++
      toString (entryCount dirs placed 0) ++ ", at most " ++
      toString args.rootEntryCount.toNat ++ ")")
  let needed := args.clustersNeeded dirs placed
  if clusters < needed then
    return .error "the files don't fit on a volume of this size"
  if l.sectorsPerFat.toNat * 256 < needed + 2 then none
  return .ok (args.write l dirs placed)

end Pugputer.Image
