import BaturWhatsApi.ByteStrings
import BaturWhatsApi.OrderedEntries
import BaturWhatsApi.SeparatedRecords
import BaturWhatsApi.Runs

/-!
# The store in memory and the store on files

`storage/memory.go` and `storage/file.go`. A map is held in key order, so the keys that
are collected from it and sorted are its keys as they stand. A directory is a map from
file names to contents.

The store on files reads a value from the file whose name is made from the key, and
lists the keys of its manifest. Every change writes the manifest to a text file with one
line for a key, from which it is read again when the directory is opened. A key with a
tab or the end of a line in it does not survive this, nor does the empty key.
-/
namespace BaturWhatsApi.KeyValueStores
open ByteStrings OrderedEntries SeparatedRecords Runs

inductive StoreError where
  | notFound
deriving DecidableEq

/-- A value, or the error for a missing key. -/
def found : Option Bytes → Except StoreError Bytes
  | some v => .ok v
  | none => .error .notFound

theorem found_inj {a b : Option Bytes} : found a = found b ↔ a = b := by
  cases a <;> cases b <;> simp [found]

/-- The keys with a given beginning. -/
def withPrefix (start : Bytes) (keys : List Bytes) : List Bytes :=
  keys.filter fun k => start.isPrefixOf k

theorem withPrefix_nil (keys : List Bytes) : withPrefix [] keys = keys := by
  simp [withPrefix]

/-! ### The store in memory -/

structure Memory where
  data : Entries Bytes Bytes := .empty

def Memory.get (m : Memory) (key : Bytes) : Except StoreError Bytes := found (m.data.get key)

def Memory.set (m : Memory) (key value : Bytes) : Memory := {m with data := m.data.set key value}

def Memory.delete (m : Memory) (key : Bytes) : Memory := {m with data := m.data.erase key}

def Memory.list (m : Memory) (start : Bytes) : List Bytes := withPrefix start m.data.keys

/-! ### File names -/

/-- The digest of the standard library. -/
structure Sha256 where
  sum : Bytes → Bytes
  sum_length : ∀ b, (sum b).length = 32

def hexDigit (n : UInt8) : UInt8 := if n < 10 then 48+n else 87+n

def hexByte (b : UInt8) : Bytes := [hexDigit (b >>> 4),hexDigit (b &&& 15)]

def hex (bs : Bytes) : Bytes := bs.flatMap hexByte

/-- Letters, digits, the dot, the dash and the underscore. -/
def isSafe (c : UInt8) : Bool :=
  97 ≤ c && c ≤ 122 || 65 ≤ c && c ≤ 90 || 48 ≤ c && c ≤ 57 || c == 46 || c == 45 || c == 95

def escapeByte (c : UInt8) : Bytes := if isSafe c then [c] else 37::hexByte c

/-- The loop over the key, which ends when the name is long enough. -/
def escapeKey : Bytes → Bytes → Bytes
  | [],sb => sb
  | c::key,sb => if sb.length < 180 then escapeKey key (sb++escapeByte c) else sb

def encodeKey (sha : Sha256) (key : Bytes) : Bytes :=
  escapeKey key []++46::hex ((sha.sum key).take 8)

def indexName : Bytes := text "MANIFEST"

def tmpName (path : Bytes) : Bytes := path++text ".tmp"

def tab : UInt8 := 9

def newline : UInt8 := 10

/-! ### The names of different keys -/

theorem hexByte_plain : ∀ b : UInt8, newline ∉ hexByte b ∧ 112 ∉ hexByte b ∧ 84 ∉ hexByte b := by
  decide +kernel

/-- The value of a digit. -/
def hexValue (x : UInt8) : UInt8 := if x < 58 then x-48 else x-87

theorem hexByte_value : ∀ b : UInt8,
    (hexByte b).foldl (fun (n : UInt8) x => n <<< 4 ||| hexValue x) 0 = b := by
  decide +kernel

theorem hexByte_inj {a b : UInt8} (h : hexByte a = hexByte b) : a = b := by
  rw [← hexByte_value a,h,hexByte_value b]

theorem hex_inj {a b : Bytes} (h : hex a = hex b) : a = b := by
  induction a generalizing b with
  | nil =>
      cases b with
      | nil => rfl
      | cons y b => cases h
  | cons x a ih =>
      cases b with
      | nil => cases h
      | cons y b =>
          rw [hex,hex,List.flatMap_cons,List.flatMap_cons] at h
          obtain ⟨hx,ha⟩ := List.append_inj h rfl
          rw [hexByte_inj hx,ih ha]

theorem hex_length (bs : Bytes) : (hex bs).length = 2*bs.length := by
  induction bs with
  | nil => rfl
  | cons b bs ih =>
      rw [hex] at ih
      rw [hex,List.flatMap_cons,List.length_append,ih,List.length_cons]
      simp only [hexByte,List.length_cons,List.length_nil]
      omega

theorem mem_hex {bs : Bytes} {x : UInt8} (h : x ∈ hex bs) : x ≠ newline ∧ x ≠ 112 ∧ x ≠ 84 := by
  obtain ⟨b,_,hb⟩ := List.mem_flatMap.mp h
  obtain ⟨h₁,h₂,h₃⟩ := hexByte_plain b
  exact ⟨fun hx => h₁ (hx ▸ hb),fun hx => h₂ (hx ▸ hb),fun hx => h₃ (hx ▸ hb)⟩

theorem escapeByte_plain : ∀ c : UInt8, newline ∉ escapeByte c := by
  decide +kernel

theorem escapeKey_plain {key sb : Bytes} (h : newline ∉ sb) : newline ∉ escapeKey key sb := by
  induction key generalizing sb with
  | nil => exact h
  | cons c key ih =>
      rw [escapeKey]
      split_ifs
      · apply ih
        rw [List.mem_append,not_or]
        exact ⟨h,escapeByte_plain c⟩
      · exact h

section
variable (sha : Sha256)

theorem encodeKey_plain (key : Bytes) : PlainValue newline (encodeKey sha key) := by
  constructor
  · simp [encodeKey]
  · rw [encodeKey,List.mem_append,List.mem_cons,not_or,not_or]
    refine ⟨escapeKey_plain List.not_mem_nil,by decide,fun hx => (mem_hex hx).1 rfl⟩

/-- A name ends in a digit of the digest. -/
theorem encodeKey_last (key : Bytes) :
    ∃ x, (encodeKey sha key).getLast? = some x ∧ x ≠ 112 ∧ x ≠ 84 := by
  have hlength : (hex ((sha.sum key).take 8)).length = 16 := by
    rw [hex_length,List.length_take,sha.sum_length]
    rfl
  have hne : hex ((sha.sum key).take 8) ≠ [] := List.ne_nil_of_length_pos (hlength ▸ by decide)
  refine ⟨(hex ((sha.sum key).take 8)).getLast hne,?_,(mem_hex (List.getLast_mem hne)).2⟩
  rw [encodeKey,List.getLast?_append_of_ne_nil _ (List.cons_ne_nil _ _),List.getLast?_cons,
    List.getLast?_eq_some_getLast hne]
  rfl

theorem tmpName_last (path : Bytes) : (tmpName path).getLast? = some 112 := by
  rw [tmpName,List.getLast?_append_of_ne_nil _ (by decide)]
  decide

theorem indexName_last : indexName.getLast? = some 84 := by
  decide

theorem encodeKey_ne_tmpName (key path : Bytes) : encodeKey sha key ≠ tmpName path := by
  obtain ⟨x,hx,hne,_⟩ := encodeKey_last sha key
  intro h
  rw [h,tmpName_last] at hx
  exact hne (Option.some.inj hx).symm

theorem encodeKey_ne_indexName (key : Bytes) : encodeKey sha key ≠ indexName := by
  obtain ⟨x,hx,_,hne⟩ := encodeKey_last sha key
  intro h
  rw [h,indexName_last] at hx
  exact hne (Option.some.inj hx).symm

theorem indexName_ne_tmpName (path : Bytes) : indexName ≠ tmpName path := by
  intro h
  have hlast := tmpName_last path
  rw [← h,indexName_last] at hlast
  cases hlast

/-- The digest tells the keys in use apart. -/
def Distinguishes (K : Set Bytes) : Prop := K.InjOn fun k => (sha.sum k).take 8

variable {sha}

theorem encodeKey_inj {K : Set Bytes} (hK : Distinguishes sha K) {j k : Bytes} (hj : j ∈ K)
    (hk : k ∈ K) (h : encodeKey sha j = encodeKey sha k) : j = k := by
  apply hK hj hk
  have hlength : (hex ((sha.sum j).take 8)).length = (hex ((sha.sum k).take 8)).length := by
    rw [hex_length,hex_length,List.length_take,List.length_take,sha.sum_length,sha.sum_length]
  have hsuffix := List.append_inj_right' h (by simp [hlength])
  exact hex_inj (List.cons.inj hsuffix).2

end

/-! ### The store on files -/

abbrev Directory := Bytes → Option Bytes

def Directory.write (dir : Directory) (name content : Bytes) : Directory :=
  Function.update dir name (some content)

def Directory.remove (dir : Directory) (name : Bytes) : Directory := Function.update dir name none

def Directory.rename (dir : Directory) (old new : Bytes) : Directory :=
  Directory.remove (Function.update dir new (dir old)) old

/-- A name in the manifest is never empty and stays on its line. -/
structure FileStore where
  files : Directory
  manifest : Entries Bytes Bytes
  values : ∀ e ∈ manifest.list, PlainValue newline e.2

/-- `NewFileStore`. A later line replaces an earlier one for the same key. -/
def newFileStore (files : Directory) : FileStore where
  files := files
  manifest := .collect (parse tab newline ((files indexName).getD []))
  values _ he := (mem_parse (mem_ofPairs he)).2

@[simp] theorem newFileStore_files (files : Directory) : (newFileStore files).files = files := rfl

theorem newFileStore_keys (files : Directory) : (newFileStore files).manifest.keys =
    (ofPairs (parse tab newline ((files indexName).getD []))).map Prod.fst := rfl

/-- The text that `writeManifestLocked` writes. -/
def manifestText (manifest : Entries Bytes Bytes) : Bytes := render tab newline manifest.list

def FileStore.get (sha : Sha256) (fs : FileStore) (key : Bytes) : Except StoreError Bytes :=
  found (fs.files (encodeKey sha key))

theorem FileStore.values_set (sha : Sha256) (fs : FileStore) (key : Bytes) :
    ∀ e ∈ (fs.manifest.set key (encodeKey sha key)).list, PlainValue newline e.2 := by
  intro e he
  cases mem_put he with
  | inl hnew => exact hnew ▸ encodeKey_plain sha key
  | inr hold => exact fs.values e hold

theorem FileStore.values_erase (fs : FileStore) (key : Bytes) :
    ∀ e ∈ (fs.manifest.erase key).list, PlainValue newline e.2 :=
  fun e he => fs.values e (List.mem_of_mem_filter he)

def FileStore.set (sha : Sha256) (fs : FileStore) (key value : Bytes) : FileStore :=
  let path := encodeKey sha key
  let files := fs.files.write (tmpName path) value
  let files := files.rename (tmpName path) path
  let manifest := fs.manifest.set key path
  {files := files.write indexName (manifestText manifest),manifest := manifest
   values := fs.values_set sha key}

def FileStore.delete (sha : Sha256) (fs : FileStore) (key : Bytes) : FileStore :=
  let files := fs.files.remove (encodeKey sha key)
  let manifest := fs.manifest.erase key
  {files := files.write indexName (manifestText manifest),manifest := manifest
   values := fs.values_erase key}

def FileStore.list (fs : FileStore) (start : Bytes) : List Bytes :=
  withPrefix start fs.manifest.keys

/-! ### Both stores side by side -/

inductive Op where
  | set (key value : Bytes)
  | delete (key : Bytes)
  | get (key : Bytes)
  | list (start : Bytes)
  | reopen
deriving DecidableEq

/-- The keys that an operation uses. -/
def Op.keys : Op → List Bytes
  | .set key _ => [key]
  | .delete key => [key]
  | .get key => [key]
  | _ => []

inductive Reply where
  | done
  | value (r : Except StoreError Bytes)
  | keys (ks : List Bytes)

/-- The directory is opened again and the store in memory lives on. -/
structure Stores where
  file : FileStore := newFileStore fun _ => none
  memory : Memory := {}

section
variable (sha : Sha256)

def FileStore.reply (fs : FileStore) : Op → Reply
  | .get key => .value (fs.get sha key)
  | .list start => .keys (fs.list start)
  | _ => .done

def Memory.reply (m : Memory) : Op → Reply
  | .get key => .value (m.get key)
  | .list start => .keys (m.list start)
  | _ => .done

def Stores.step (s : Stores) : Op → Stores
  | .set key value => {file := s.file.set sha key value,memory := s.memory.set key value}
  | .delete key => {file := s.file.delete sha key,memory := s.memory.delete key}
  | .reopen => {s with file := newFileStore s.file.files}
  | _ => s

end

/-! ### The files after a change -/

section
variable {sha : Sha256} {K : Set Bytes} {fs : FileStore} {j k v : Bytes}

theorem Directory.write_same (dir : Directory) (name content : Bytes) :
    dir.write name content name = some content := Function.update_self ..

theorem Directory.write_other (dir : Directory) {name other : Bytes} (content : Bytes)
    (h : other ≠ name) : dir.write name content other = dir other := Function.update_of_ne h ..

theorem Directory.remove_same (dir : Directory) (name : Bytes) : dir.remove name name = none :=
  Function.update_self ..

theorem Directory.remove_other (dir : Directory) {name other : Bytes} (h : other ≠ name) :
    dir.remove name other = dir other := Function.update_of_ne h ..

theorem Directory.rename_new (dir : Directory) {old new : Bytes} (h : new ≠ old) :
    dir.rename old new new = dir old := by
  rw [Directory.rename,Directory.remove_other _ h,Function.update_self]

theorem Directory.rename_other (dir : Directory) {old new other : Bytes} (h : other ≠ old)
    (h' : other ≠ new) : dir.rename old new other = dir other := by
  rw [Directory.rename,Directory.remove_other _ h,Function.update_of_ne h']

/-- The value is in place and the temporary file is gone. -/
theorem files_replaced (hK : Distinguishes sha K) (hj : j ∈ K) (hk : k ∈ K) (dir : Directory) :
    ((dir.write (tmpName (encodeKey sha k)) v).rename (tmpName (encodeKey sha k))
      (encodeKey sha k)) (encodeKey sha j) = if j = k then some v else dir (encodeKey sha j) := by
  split_ifs with h
  · rw [h,Directory.rename_new _ (encodeKey_ne_tmpName sha k _),Directory.write_same]
  · have hne : encodeKey sha j ≠ encodeKey sha k := fun he => h (encodeKey_inj hK hj hk he)
    rw [Directory.rename_other _ (encodeKey_ne_tmpName sha j _) hne,
      Directory.write_other _ _ (encodeKey_ne_tmpName sha j _)]

theorem files_removed (hK : Distinguishes sha K) (hj : j ∈ K) (hk : k ∈ K) (dir : Directory) :
    dir.remove (encodeKey sha k) (encodeKey sha j) =
      if j = k then none else dir (encodeKey sha j) := by
  split_ifs with h
  · rw [h,Directory.remove_same]
  · exact Directory.remove_other _ fun he => h (encodeKey_inj hK hj hk he)

theorem index_written (dir : Directory) (content key : Bytes) :
    dir.write indexName content (encodeKey sha key) = dir (encodeKey sha key) :=
  Directory.write_other _ _ (encodeKey_ne_indexName sha key)

end

/-! ### The two stores agree -/

/-- What the directory holds for a store in memory. -/
structure Holds (sha : Sha256) (K : Set Bytes) (s : Stores) : Prop where
  names : s.file.manifest = s.memory.data.derive (encodeKey sha)
  index : (s.file.files indexName).getD [] = manifestText s.file.manifest
  files : ∀ k ∈ K, s.file.files (encodeKey sha k) = s.memory.data.get k

/-- Every key can be read back from the manifest. -/
def Readable (keys : List Bytes) : Prop := ∀ k ∈ keys, PlainKey tab newline k

/-- When the directory is opened again, the keys in the store can be read back. -/
def ReopensReadable (s : Stores) (op : Op) : Prop := op = .reopen → Readable s.memory.data.keys

section
variable {sha : Sha256} {K : Set Bytes} {s : Stores} {k v : Bytes}

theorem Holds.keys (h : Holds sha K s) : s.file.manifest.keys = s.memory.data.keys := by
  rw [h.names,Entries.derive_keys]

theorem Holds.reply (h : Holds sha K s) {op : Op} (hop : ∀ k ∈ op.keys, k ∈ K) :
    s.file.reply sha op = s.memory.reply op := by
  cases op with
  | get key =>
      rw [FileStore.reply,Memory.reply,FileStore.get,Memory.get,
        h.files key (hop key List.mem_cons_self)]
  | list start => rw [FileStore.reply,Memory.reply,FileStore.list,Memory.list,h.keys]
  | _ => rfl

theorem Holds.set (hK : Distinguishes sha K) (hk : k ∈ K) (h : Holds sha K s) :
    Holds sha K (s.step sha (.set k v)) where
  names := by
    simp only [Stores.step,FileStore.set,Memory.set,h.names,Entries.derive_set]
  index := by
    simp only [Stores.step,FileStore.set,Directory.write_same,Option.getD_some]
  files j hj := by
    simp only [Stores.step,FileStore.set,Memory.set,index_written,files_replaced hK hj hk,
      Entries.get_set,h.files j hj]
    split_ifs <;> rfl

theorem Holds.delete (hK : Distinguishes sha K) (hk : k ∈ K) (h : Holds sha K s) :
    Holds sha K (s.step sha (.delete k)) where
  names := by
    simp only [Stores.step,FileStore.delete,Memory.delete,h.names,Entries.derive_erase]
  index := by
    simp only [Stores.step,FileStore.delete,Directory.write_same,Option.getD_some]
  files j hj := by
    simp only [Stores.step,FileStore.delete,Memory.delete,index_written,files_removed hK hj hk,
      Entries.get_erase,h.files j hj]
    split_ifs <;> rfl

/-- The manifest is read back. -/
theorem newFileStore_manifest {files : Directory} {manifest : Entries Bytes Bytes}
    (hindex : (files indexName).getD [] = manifestText manifest)
    (hplain : Plain tab newline manifest.list) :
    (newFileStore files).manifest = manifest := by
  ext1
  simp only [newFileStore,Entries.collect]
  rw [hindex,manifestText,parse_render (by decide) hplain,ofPairs_of_ordered manifest.ordered]

theorem FileStore.plain {fs : FileStore} (hread : Readable fs.manifest.keys) :
    Plain tab newline fs.manifest.list :=
  fun e he => ⟨hread e.1 (List.mem_map_of_mem he),fs.values e he⟩

theorem Holds.reopen (h : Holds sha K s) (hread : Readable s.memory.data.keys) :
    Holds sha K (s.step sha .reopen) := by
  have hmanifest := newFileStore_manifest h.index (FileStore.plain (h.keys.symm ▸ hread))
  constructor
  · exact hmanifest.trans h.names
  · exact h.index.trans (congrArg manifestText hmanifest.symm)
  · exact h.files

theorem newFileStore_readable (files : Directory) :
    Readable (newFileStore files).manifest.keys := by
  intro k hk
  obtain ⟨e,he,rfl⟩ := List.mem_map.mp hk
  exact (mem_parse (mem_ofPairs he)).1

/-- A directory that is opened again lists only keys that can be read back. -/
theorem readable_of_agree (hlist : (s.step sha .reopen).file.reply sha (.list []) =
    (s.step sha .reopen).memory.reply (.list [])) : Readable s.memory.data.keys := by
  have hkeys : (newFileStore s.file.files).manifest.keys = s.memory.data.keys := by
    simpa [Stores.step,FileStore.reply,Memory.reply,FileStore.list,Memory.list,
      withPrefix_nil] using hlist
  rw [← hkeys]
  exact newFileStore_readable s.file.files

theorem Holds.step (hK : Distinguishes sha K) {op : Op} (hop : ∀ k ∈ op.keys, k ∈ K)
    (h : Holds sha K s) (hreopen : ReopensReadable s op) : Holds sha K (s.step sha op) := by
  cases op with
  | set k v => exact h.set hK (hop k List.mem_cons_self)
  | delete k => exact h.delete hK (hop k List.mem_cons_self)
  | get k => exact h
  | list start => exact h
  | reopen => exact h.reopen (hreopen rfl)

end

theorem holds_start (sha : Sha256) (K : Set Bytes) : Holds sha K {} :=
  ⟨rfl,rfl,fun _ _ => rfl⟩

/-- The store on files answers as the store in memory, throughout a run on keys that the digest
tells apart, exactly when the directory is only opened again with readable keys in it. -/
theorem file_store_agrees_iff (sha : Sha256) {K : Set Bytes} (hK : Distinguishes sha K)
    {ops : List Op} (hops : ∀ op ∈ ops, ∀ k ∈ op.keys, k ∈ K) :
    (∀ pre, pre <+: ops → ∀ op : Op, (∀ k ∈ op.keys, k ∈ K) →
      (run (Stores.step sha) pre {}).file.reply sha op =
        (run (Stores.step sha) pre {}).memory.reply op) ↔
      Along (Stores.step sha) ReopensReadable ops {} := by
  apply along_iff_of (I := Holds sha K) (Q := fun op => ∀ k ∈ op.keys, k ∈ K)
    (R := fun s => ∀ op : Op, (∀ k ∈ op.keys, k ∈ K) → s.file.reply sha op = s.memory.reply op)
  · intro s op hop h hreopen
    exact h.step hK hop hreopen
  · intro s h op hop
    exact h.reply hop
  · intro s op _ h hagree hreopen
    subst hreopen
    exact readable_of_agree (hagree (.list []) fun k hk => (nomatch hk))
  · exact hops
  · exact holds_start sha K

/-- A digest for short keys. -/
def paddedKey : Sha256 where
  sum b := (b++List.replicate 32 0).take 32
  sum_length b := by simp

theorem paddedKey_distinguishes : Distinguishes paddedKey {text "a",text "b"} := by
  rintro k (rfl | rfl) k' (rfl | rfl) h
  · rfl
  · exact absurd h (by decide)
  · exact absurd h (by decide)
  · rfl

/-- Two keys are set, and one is deleted after the directory was opened again. -/
def sampleOps : List Op :=
  [.set (text "a") [1],.set (text "b") [2],.reopen,.delete (text "a"),.set (text "b") [3],.reopen]

theorem file_store_agrees_sample :
    let s := run (Stores.step paddedKey) sampleOps {}
    s.file.reply paddedKey (.get (text "a")) = .value (.error .notFound) ∧
    s.file.reply paddedKey (.get (text "b")) = .value (.ok [3]) ∧
    s.file.reply paddedKey (.list []) = .keys [text "b"] := by
  have hops : ∀ op ∈ sampleOps, ∀ k ∈ op.keys, k ∈ ({text "a",text "b"} : Set Bytes) := by
    simp [sampleOps,Op.keys]
  have hreadable : Along (Stores.step paddedKey) ReopensReadable sampleOps {} := by
    have hread : ∀ keys : List Bytes, keys ⊆ [text "a",text "b"] → Readable keys := by
      intro keys hkeys k hk
      have hab : k = text "a" ∨ k = text "b" := by simpa using hkeys hk
      rcases hab with rfl | rfl <;> exact ⟨by decide,by decide,by decide⟩
    refine ⟨fun h => (nomatch h),fun h => (nomatch h),fun _ => hread _ ?_,fun h => (nomatch h),
      fun h => (nomatch h),fun _ => hread _ ?_,trivial⟩
    · decide
    · decide
  have hagree := (file_store_agrees_iff paddedKey paddedKey_distinguishes hops).mpr hreadable _
    List.prefix_rfl
  refine ⟨?_,?_,?_⟩
  · rw [hagree (.get (text "a")) (by simp [Op.keys])]
    rfl
  · rw [hagree (.get (text "b")) (by simp [Op.keys])]
    rfl
  · rw [hagree (.list []) (by simp [Op.keys])]
    rfl

/-- The end of a line in a key: after the directory is opened again another key is listed. -/
theorem newline_key_misread :
    let s := run (Stores.step paddedKey) [.set (text "a\nb") [1],.reopen] {}
    s.file.list [] = [text "b"] ∧ s.memory.list [] = [text "a\nb"] ∧
      s.file.get paddedKey (text "a\nb") = .ok [1] := by
  refine ⟨by decide,by decide,by rfl⟩

end BaturWhatsApi.KeyValueStores
