import Mathlib.Data.List.TakeWhile
import Pugputer.Image.Tree

namespace Pugputer.Image

/-! Reading an image as a FAT16 volume. -/

structure Entry where
  name : Name
  attr : Byte
  cluster : Nat
  size : Nat
  deriving DecidableEq, Repr

namespace Reader

variable (image : Bytes)

def word16 (i : Nat) : Nat := (word (image (i + 1)) (image i)).toNat

/-! The boot sector. -/

def spc : Nat := (image 13).toNat
def reserved : Nat := word16 image 14
def fats : Nat := (image 16).toNat
def rootEntries : Nat := word16 image 17
def perFat : Nat := word16 image 22
def rootLba : Nat := reserved image + fats image * perFat image
def rootSectors : Nat := (rootEntries image * 32 + 511) / 512
def dataLba : Nat := rootLba image + rootSectors image

def bytesAt (off n : Nat) : List Byte := (List.range n).map fun i => image (off + i)

/-- Entry `k` of a copy of the FAT. -/
def next (copy k : Nat) : Nat :=
  word16 image ((reserved image + copy * perFat image) * 512 + 2 * k)

/-- The clusters from `k` to the end of its chain; `none` if it has no proper end. -/
def chain (copy : Nat) : (fuel : Nat) → Nat → Option (List Nat)
  | 0, _ => none
  | fuel + 1, k =>
      if k < 2 ∨ 0xFFF8 ≤ k then none
      else if 0xFFF8 ≤ next image copy k then some [k]
      else (chain copy fuel (next image copy k)).map (k :: ·)

def clusterBytes (k : Nat) : List Byte :=
  bytesAt image ((dataLba image + (k - 2) * spc image) * 512) (spc image * 512)

/-- The chain of a cluster; no FAT16 chain is longer than the FAT. -/
def clusters (copy k : Nat) : Option (List Nat) := chain image copy 65536 k

def entry (bytes : List Byte) : Entry where
  name := bytes.take 11
  attr := bytes.getD 11 0
  cluster := (word (bytes.getD 27 0) (bytes.getD 26 0)).toNat
  size := (word (bytes.getD 31 0) (bytes.getD 30 0) ++ word (bytes.getD 29 0) (bytes.getD 28 0)).toNat

/-- The entries of a directory: up to one that starts with 0, without the deleted ones. -/
def entries : (count : Nat) → List Byte → List Entry
  | 0, _ => []
  | count + 1, bytes =>
      if bytes.getD 0 0 = 0 then []
      else if bytes.getD 0 0 = 0xE5#8 then entries count (bytes.drop 32)
      else entry bytes :: entries count (bytes.drop 32)

/-- The bytes of a directory; the one with cluster 0 is the root. -/
def directoryBytes (copy cluster : Nat) : Option (List Byte) :=
  if cluster = 0 then some (bytesAt image (rootLba image * 512) (rootSectors image * 512))
  else (clusters image copy cluster).map (·.flatMap (clusterBytes image))

def directory (copy cluster : Nat) : Option (List Entry) :=
  (directoryBytes image copy cluster).map fun bytes => entries (bytes.length / 32) bytes

/-- The bytes of a file. -/
def contents (copy cluster size : Nat) : Option (List Byte) :=
  if size = 0 then some []
  else (clusters image copy cluster).map fun ks => (ks.flatMap (clusterBytes image)).take size

end Reader

/-! The tree the files are in. -/

/-- A file's path as the disk has it. -/
def Fat16File.path (f : Fat16File) : List Name := f.parts.map shortName

/-- A directory of the tree. -/
def IsDir (files : List Fat16File) (path : List Name) : Prop :=
  path = [] ∨ ∃ f ∈ files, ∃ rest, rest ≠ [] ∧ f.path = path ++ rest

/-- What has clusters of its own. -/
def Owner (files : List Fat16File) (path : List Name) : Prop :=
  (path ≠ [] ∧ IsDir files path) ∨ ∃ f ∈ files, f.path = path ∧ f.data ≠ []

def dotEntries (dirCluster : List Name → Nat) (path : List Name) : List Entry :=
  if path = [] then []
  else
    [⟨[dot].rightpad 11 space, 0x10#8, dirCluster path, 0⟩,
      ⟨[dot, dot].rightpad 11 space, 0x10#8, dirCluster path.dropLast, 0⟩]

/-- Reading an image gives the payload, the files and their directories back, and nothing else. -/
structure RoundTrip (args : Args) (image : Bytes) (copy : Nat)
    (dirCluster fileCluster : List Name → Nat) (chainOf : List Name → List Nat) : Prop where
  room : 512 + args.dosPayload.length ≤ Reader.reserved image * 512
  payload : Reader.bytesAt image 512 args.dosPayload.length = args.dosPayload
  root : dirCluster [] = 0
  directory : ∀ path, IsDir args.files path → ∃ es,
    Reader.directory image copy (dirCluster path) = some (dotEntries dirCluster path ++ es) ∧
    (es.map Entry.name).Nodup ∧
    ∀ e, e ∈ es ↔
      (∃ f ∈ args.files, f.path = path ++ [e.name] ∧
        e = ⟨e.name, 0x20#8, fileCluster f.path, f.data.length⟩) ∨
      (IsDir args.files (path ++ [e.name]) ∧ e = ⟨e.name, 0x10#8, dirCluster (path ++ [e.name]), 0⟩)
  contents : ∀ f ∈ args.files,
    Reader.contents image copy (fileCluster f.path) f.data.length = some f.data
  dirChain : ∀ path, path ≠ [] → IsDir args.files path →
    Reader.clusters image copy (dirCluster path) = some (chainOf path)
  fileChain : ∀ f ∈ args.files, f.data ≠ [] →
    Reader.clusters image copy (fileCluster f.path) = some (chainOf f.path)
  disjoint : ∀ path path', Owner args.files path → Owner args.files path' → path ≠ path' →
    ∀ k ∈ chainOf path, k ∉ chainOf path'
  covered : ∀ k, 2 ≤ k → k < 256 * Reader.perFat image → Reader.next image copy k ≠ 0 →
    ∃ path, Owner args.files path ∧ k ∈ chainOf path

/-! Names. -/

/-- A character of a file name. -/
def nameChar (c : Byte) : Prop := space < c ∧ c ≠ dot ∧ c ≠ slash

instance (c : Byte) : Decidable (nameChar c) :=
  inferInstanceAs (Decidable (space < c ∧ c ≠ dot ∧ c ≠ slash))

/-- Up to eight characters, and up to three after a dot. -/
def ValidName (name : Name) : Prop :=
  ∃ base ext, name = base ++ (if ext = [] then [] else dot :: ext) ∧ base ≠ [] ∧
    base.length ≤ 8 ∧ ext.length ≤ 3 ∧ (∀ c ∈ base ++ ext, nameChar c) ∧ base.head? ≠ some 0xE5#8

/-- A file's path in capitals. -/
def Fat16File.upperPath (f : Fat16File) : List Name := f.parts.map (·.map toUpper)

/-- Files whose names are valid, distinct ignoring case, and no file's name is a directory of
another's. -/
structure Nameable (files : List Fat16File) : Prop where
  valid : ∀ f ∈ files, ∀ name ∈ f.parts, ValidName name
  distinct : files.Pairwise fun f g => f.upperPath ≠ g.upperPath
  apart : ∀ f ∈ files, ∀ g ∈ files, ∀ rest, rest ≠ [] → g.upperPath ≠ f.upperPath ++ rest

theorem toUpper_nameChar : ∀ c : Byte, space < c → space < toUpper c := by decide

theorem toUpper_twice : ∀ c : Byte, toUpper (toUpper c) = toUpper c := by decide

theorem toUpper_dot : ∀ c : Byte, toUpper c = dot ↔ c = dot := by decide

theorem toUpper_first : ∀ c : Byte, space < c → c ≠ 0xE5#8 → toUpper c ≠ 0 ∧ toUpper c ≠ 0xE5#8 := by
  decide

theorem shortName_valid {base ext : Name} (baseChars : ∀ c ∈ base, nameChar c)
    (short : base.length ≤ 8) (extShort : ext.length ≤ 3) :
    shortName (base ++ (if ext = [] then [] else dot :: ext)) =
      (base.map toUpper).rightpad 8 space ++ (ext.map toUpper).rightpad 3 space := by
  have noDot : ∀ c ∈ base, decide (c ≠ dot) = true := fun c member =>
    decide_eq_true (baseChars c member).2.1
  rw [shortName]
  by_cases none : ext = []
  · subst none
    have whole : base.takeWhile (· ≠ dot) = base := List.takeWhile_eq_self_iff.mpr noDot
    have rest : base.dropWhile (· ≠ dot) = [] := List.dropWhile_eq_nil_iff.mpr noDot
    simp only [if_true, List.append_nil, whole, rest, List.take_of_length_le short]
    rfl
  · have first : (base ++ dot :: ext).takeWhile (· ≠ dot) = base := by
      rw [List.takeWhile_append_of_pos noDot, List.takeWhile_cons]
      simp
    have rest : (base ++ dot :: ext).dropWhile (· ≠ dot) = dot :: ext := by
      rw [List.dropWhile_append_of_pos noDot, List.dropWhile_cons]
      simp
    simp only [if_neg none, first, rest, List.drop_succ_cons, List.drop_zero,
      List.take_of_length_le short, List.take_of_length_le extShort]

theorem rightpad_inj {n : Nat} {a b : Name} (aChars : ∀ c ∈ a, c ≠ space)
    (bChars : ∀ c ∈ b, c ≠ space) (same : a.rightpad n space = b.rightpad n space) : a = b := by
  have unpad (l : Name) (chars : ∀ c ∈ l, c ≠ space) :
      (l.rightpad n space).takeWhile (· ≠ space) = l := by
    rw [List.rightpad, List.takeWhile_append_of_pos fun c member =>
      decide_eq_true (chars c member)]
    have none : (List.replicate (n - l.length) space).takeWhile (· ≠ space) = [] := by
      rw [List.takeWhile_replicate]
      simp
    rw [none, List.append_nil]
  rw [← unpad a aChars, ← unpad b bChars, same]

theorem rightpad_length {n : Nat} {a : Name} (short : a.length ≤ n) :
    (a.rightpad n space).length = n := by
  rw [List.rightpad, List.length_append, List.length_replicate]
  omega

theorem shortName_inj {a b : Name} (aValid : ValidName a) (bValid : ValidName b)
    (same : shortName a = shortName b) : a.map toUpper = b.map toUpper := by
  obtain ⟨base, ext, rfl, -, short, extShort, chars, -⟩ := aValid
  obtain ⟨base', ext', rfl, -, short', extShort', chars', -⟩ := bValid
  rw [shortName_valid (fun c member => chars c (List.mem_append_left _ member)) short extShort,
    shortName_valid (fun c member => chars' c (List.mem_append_left _ member)) short' extShort'] at same
  have lengths : ((base.map toUpper).rightpad 8 space).length =
      ((base'.map toUpper).rightpad 8 space).length := by
    rw [rightpad_length (by rw [List.length_map]; exact short),
      rightpad_length (by rw [List.length_map]; exact short')]
  obtain ⟨sameBase, sameExt⟩ := List.append_inj same lengths
  have upper {l : Name} (plain : ∀ c ∈ l, nameChar c) : ∀ c ∈ l.map toUpper, c ≠ space := by
    intro c member isSpace
    obtain ⟨d, inL, rfl⟩ := List.mem_map.mp member
    have above := toUpper_nameChar d (plain d inL).1
    rw [isSpace] at above
    exact absurd above (by decide)
  have bases := rightpad_inj (upper fun c member => chars c (List.mem_append_left _ member))
    (upper fun c member => chars' c (List.mem_append_left _ member)) sameBase
  have exts := rightpad_inj (upper fun c member => chars c (List.mem_append_right _ member))
    (upper fun c member => chars' c (List.mem_append_right _ member)) sameExt
  have none : ext = [] ↔ ext' = [] := by
    rw [← List.map_eq_nil_iff (f := toUpper), exts, List.map_eq_nil_iff]
  rw [List.map_append, List.map_append, bases]
  congr 1
  by_cases empty : ext = []
  · rw [if_pos empty, if_pos (none.mp empty)]
  · rw [if_neg empty, if_neg fun empty' => empty (none.mpr empty'), List.map_cons, List.map_cons,
      exts]

end Pugputer.Image
