import BaturWhatsApi.KeyValueStores

/-!
# Updates of the file store that stop on the way

`Set` writes a temporary file, renames it and writes the manifest; `Delete` removes a file and
writes the manifest. Either may stop at any of these file operations, with an error or
because the process is gone. A file that is being written then has the first bytes of its
new content, and the temporary file of a failed rename may be left behind.

A value is replaced in one step, but the manifest is not, and it is a second file. So a stop
after the first step leaves a key that is found and not listed, or listed and not found,
and a stop inside the manifest loses keys that the update does not touch.
-/
namespace BaturWhatsApi.StoppedUpdates
open ByteStrings OrderedEntries SeparatedRecords KeyValueStores

/-- `os.WriteFile` as far as it comes: not at all, or to some number of bytes. -/
def writeUpTo (dir : Directory) (name content : Bytes) : Option ℕ → Directory
  | none => dir
  | some n => dir.write name (content.take n)

/-- Where `Set` stops. -/
inductive SetStop where
  | temp (written : Option ℕ)
  | rename (removed : Bool)
  | index (written : Option ℕ)

/-- Where `Delete` stops. -/
inductive DeleteStop where
  | remove
  | index (written : Option ℕ)

section
variable (sha : Sha256) (fs : FileStore) (key : Bytes)

def setStopped (value : Bytes) : SetStop → Directory
  | .temp written => writeUpTo fs.files (tmpName (encodeKey sha key)) value written
  | .rename removed =>
      let files := fs.files.write (tmpName (encodeKey sha key)) value
      if removed then files.remove (tmpName (encodeKey sha key)) else files
  | .index written =>
      let path := encodeKey sha key
      let files := fs.files.write (tmpName path) value
      let files := files.rename (tmpName path) path
      writeUpTo files indexName (manifestText (fs.manifest.set key path)) written

def deleteStopped : DeleteStop → Directory
  | .remove => fs.files
  | .index written =>
      let files := fs.files.remove (encodeKey sha key)
      writeUpTo files indexName (manifestText (fs.manifest.erase key)) written

end

/-! ### What has to hold afterwards -/

section
variable (sha : Sha256) (K : Set Bytes) (fs : FileStore) (key : Bytes)

def Finds (fs : FileStore) (j : Bytes) : Prop := ∃ v, fs.get sha j = .ok v

/-- After the directory is opened again every other key has its value and is listed, the key has
its old or its new value, and the list is exact. -/
structure Recovered (new : Option Bytes) (files : Directory) : Prop where
  others : ∀ j ∈ K, j ≠ key → (newFileStore files).get sha j = fs.get sha j
  listed : ∀ j ∈ K, j ≠ key → j ∈ fs.list [] → j ∈ (newFileStore files).list []
  own : (newFileStore files).get sha key = fs.get sha key ∨
    (newFileStore files).get sha key = found new
  exact : ∀ j ∈ K, j ∈ (newFileStore files).list [] ↔ Finds sha (newFileStore files) j

/-- The keys that the manifest in the directory has now. -/
def onDisk : List Bytes := (newFileStore fs.files).manifest.keys

/-- Apart from the key, the manifest in the directory has the keys of the store and those that
are found. -/
structure Synced : Prop where
  listed : ∀ j ∈ K, j ≠ key → j ∈ fs.manifest.keys → j ∈ onDisk fs
  exact : ∀ j ∈ K, j ≠ key → (j ∈ onDisk fs ↔ Finds sha fs j)

/-- The new manifest can be read back from what is written of it, and apart from the key it has
the keys that are found. -/
structure Covered (manifest : Entries Bytes Bytes) (n : ℕ) : Prop where
  readable : Readable manifest.keys
  exact : ∀ j ∈ K, j ≠ key → (j ∈ fs.manifest.keys ↔ Finds sha fs j)
  written : (manifestText manifest).length ≤ n+slack manifest.list

def SetSafe : SetStop → Prop
  | .temp _ => Synced sha K fs key ∧ (key ∈ onDisk fs ↔ Finds sha fs key)
  | .rename _ => Synced sha K fs key ∧ (key ∈ onDisk fs ↔ Finds sha fs key)
  | .index none => Synced sha K fs key ∧ key ∈ onDisk fs
  | .index (some n) => Covered sha K fs key (fs.manifest.set key (encodeKey sha key)) n

def DeleteSafe : DeleteStop → Prop
  | .remove => Synced sha K fs key ∧ (key ∈ onDisk fs ↔ Finds sha fs key)
  | .index none => Synced sha K fs key ∧ key ∉ onDisk fs
  | .index (some n) => Covered sha K fs key (fs.manifest.erase key) n

end

/-! ### The directory where the update stopped -/

section
variable {sha : Sha256} {K : Set Bytes} {fs : FileStore} {key : Bytes}

theorem finds_iff {fs : FileStore} {j : Bytes} :
    Finds sha fs j ↔ (fs.files (encodeKey sha j)).isSome := by
  rw [Finds,FileStore.get]
  cases fs.files (encodeKey sha j) <;> simp [found]

theorem list_nil (fs : FileStore) : fs.list [] = fs.manifest.keys := withPrefix_nil _

/-- The files of the keys are as before, except that of the key, which has the given content. -/
structure Leaves (sha : Sha256) (K : Set Bytes) (fs : FileStore) (key : Bytes)
    (content : Option Bytes) (files : Directory) : Prop where
  others : ∀ j ∈ K, j ≠ key → files (encodeKey sha j) = fs.files (encodeKey sha j)
  own : files (encodeKey sha key) = content

theorem Leaves.written {content : Option Bytes} {files : Directory}
    (h : Leaves sha K fs key content files) (text : Bytes) (written : Option ℕ) :
    Leaves sha K fs key content (writeUpTo files indexName text written) := by
  cases written with
  | none => exact h
  | some n =>
      constructor
      · intro j hj hne
        exact (index_written files _ j).trans (h.others j hj hne)
      · exact (index_written files _ key).trans h.own

/-- Only the lists are left to compare. -/
theorem Leaves.recovered_iff (hkey : key ∈ K) {new content : Option Bytes} {files : Directory}
    (h : Leaves sha K fs key content files)
    (hcontent : content = fs.files (encodeKey sha key) ∨ content = new) :
    Recovered sha K fs key new files ↔
      (∀ j ∈ K, j ≠ key → j ∈ fs.manifest.keys → j ∈ (newFileStore files).manifest.keys) ∧
      (∀ j ∈ K, j ≠ key → (j ∈ (newFileStore files).manifest.keys ↔ Finds sha fs j)) ∧
      (key ∈ (newFileStore files).manifest.keys ↔ content.isSome) := by
  have hother : ∀ j ∈ K, j ≠ key → (Finds sha (newFileStore files) j ↔ Finds sha fs j) := by
    intro j hj hne
    rw [finds_iff,finds_iff,newFileStore_files,h.others j hj hne]
  have hown : Finds sha (newFileStore files) key ↔ content.isSome := by
    rw [finds_iff,newFileStore_files,h.own]
  constructor
  · intro hrec
    have hlisted := hrec.listed
    have hexact := hrec.exact
    simp only [list_nil] at hlisted hexact
    refine ⟨hlisted,fun j hj hne => ?_,?_⟩
    · rw [hexact j hj,hother j hj hne]
    · rw [hexact key hkey,hown]
  · rintro ⟨hlisted,hexact,hkeyexact⟩
    constructor
    · intro j hj hne
      rw [FileStore.get,FileStore.get,newFileStore_files,h.others j hj hne]
    · simpa only [list_nil] using hlisted
    · rw [FileStore.get,FileStore.get,newFileStore_files,h.own,found_inj,found_inj]
      exact hcontent
    · intro j hj
      rw [list_nil]
      by_cases hne : j = key
      · rw [hne,hkeyexact,hown]
      · rw [hexact j hj hne,hother j hj hne]

/-- The manifest in the directory is still the old one. -/
theorem Leaves.recovered_before (hkey : key ∈ K) {new content : Option Bytes} {files : Directory}
    (h : Leaves sha K fs key content files)
    (hcontent : content = fs.files (encodeKey sha key) ∨ content = new)
    (hindex : files indexName = fs.files indexName) :
    Recovered sha K fs key new files ↔
      Synced sha K fs key ∧ (key ∈ onDisk fs ↔ content.isSome) := by
  have hkeys : (newFileStore files).manifest.keys = onDisk fs := by
    rw [onDisk,newFileStore_keys,newFileStore_keys,hindex]
  rw [h.recovered_iff hkey hcontent,hkeys]
  exact ⟨fun ⟨h₁,h₂,h₃⟩ => ⟨⟨h₁,h₂⟩,h₃⟩,fun ⟨⟨h₁,h₂⟩,h₃⟩ => ⟨h₁,h₂,h₃⟩⟩

/-- The keys of a manifest of which the first bytes are there. -/
theorem torn_keys {manifest : Entries Bytes Bytes} {files : Directory} {n : ℕ}
    (hplain : Plain tab newline manifest.list)
    (hindex : files indexName = some ((manifestText manifest).take n)) :
    (newFileStore files).manifest.keys <+: manifest.keys ∧
      ((newFileStore files).manifest.keys = manifest.keys ↔
        (manifestText manifest).length ≤ n+slack manifest.list) := by
  have hstart : (parse tab newline ((manifestText manifest).take n)).map Prod.fst <+:
      manifest.keys := parse_take_prefix (by decide) hplain n
  have hordered : Ordered (parse tab newline ((manifestText manifest).take n)) := by
    rw [ordered_iff_keys]
    exact manifest.keys_ordered.sublist hstart.sublist
  have hkeys : (newFileStore files).manifest.keys =
      (parse tab newline ((manifestText manifest).take n)).map Prod.fst := by
    rw [newFileStore_keys,hindex,Option.getD_some,ofPairs_of_ordered hordered]
  rw [hkeys]
  exact ⟨hstart,parse_take_keys (by decide) hplain n⟩

/-- The manifest in the directory is part of the new one. -/
theorem Leaves.recovered_torn (hkey : key ∈ K) (hkeys : ∀ j ∈ fs.manifest.keys, j ∈ K)
    {new : Option Bytes} {files : Directory} (h : Leaves sha K fs key new files)
    {manifest : Entries Bytes Bytes} (hvalues : ∀ e ∈ manifest.list, PlainValue newline e.2)
    (hself : key ∈ manifest.keys ↔ new.isSome)
    (hother : ∀ j, j ≠ key → (j ∈ manifest.keys ↔ j ∈ fs.manifest.keys))
    {n : ℕ} (hindex : files indexName = some ((manifestText manifest).take n)) :
    Recovered sha K fs key new files ↔ Covered sha K fs key manifest n := by
  have hplain : Readable manifest.keys → Plain tab newline manifest.list :=
    fun hread e he => ⟨hread e.1 (List.mem_map_of_mem he),hvalues e he⟩
  rw [h.recovered_iff hkey (.inr rfl)]
  constructor
  · rintro ⟨hlisted,hexact,hkeyexact⟩
    have hall : ∀ j ∈ manifest.keys, j ∈ (newFileStore files).manifest.keys := by
      intro j hj
      by_cases hne : j = key
      · rw [hne,hkeyexact,← hself,← hne]
        exact hj
      · have hj := (hother j hne).mp hj
        exact hlisted j (hkeys j hj) hne hj
    have hread : Readable manifest.keys :=
      fun j hj => newFileStore_readable files j (hall j hj)
    obtain ⟨hstart,hcovers⟩ := torn_keys (hplain hread) hindex
    have hsame : (newFileStore files).manifest.keys = manifest.keys :=
      Entries.keys_ext fun j => ⟨fun hj => hstart.subset hj,hall j⟩
    refine ⟨hread,fun j hj hne => ?_,hcovers.mp hsame⟩
    rw [← hother j hne,← hsame,hexact j hj hne]
  · rintro ⟨hread,hexact,hwritten⟩
    have hsame := (torn_keys (hplain hread) hindex).2.mpr hwritten
    rw [hsame]
    refine ⟨fun j _ hne hj => (hother j hne).mpr hj,fun j hj hne => ?_,hself⟩
    rw [hother j hne,hexact j hj hne]

/-! ### The two updates -/

theorem leaves_unchanged {files : Directory}
    (h : ∀ j, files (encodeKey sha j) = fs.files (encodeKey sha j)) :
    Leaves sha K fs key (fs.files (encodeKey sha key)) files :=
  ⟨fun j _ _ => h j,h key⟩

theorem leaves_replaced (fs : FileStore) (hK : Distinguishes sha K) (hkey : key ∈ K)
    (value : Bytes) :
    Leaves sha K fs key (some value) ((fs.files.write (tmpName (encodeKey sha key)) value).rename
      (tmpName (encodeKey sha key)) (encodeKey sha key)) := by
  constructor
  · intro j hj hne
    rw [files_replaced hK hj hkey,if_neg hne]
  · rw [files_replaced hK hkey hkey,if_pos rfl]

theorem leaves_removed (fs : FileStore) (hK : Distinguishes sha K) (hkey : key ∈ K) :
    Leaves sha K fs key none (fs.files.remove (encodeKey sha key)) := by
  constructor
  · intro j hj hne
    rw [files_removed hK hj hkey,if_neg hne]
  · rw [files_removed hK hkey hkey,if_pos rfl]

theorem replaced_index (value : Bytes) :
    ((fs.files.write (tmpName (encodeKey sha key)) value).rename (tmpName (encodeKey sha key))
      (encodeKey sha key)) indexName = fs.files indexName := by
  rw [Directory.rename_other _ (indexName_ne_tmpName _) (encodeKey_ne_indexName sha key).symm,
    Directory.write_other _ _ (indexName_ne_tmpName _)]

/-- A temporary file is not seen. -/
theorem recovered_temp (hkey : key ∈ K) {new : Option Bytes} {files : Directory} (path : Bytes)
    (htemp : ∀ name, name ≠ tmpName path → files name = fs.files name) :
    Recovered sha K fs key new files ↔
      Synced sha K fs key ∧ (key ∈ onDisk fs ↔ Finds sha fs key) := by
  rw [finds_iff]
  apply (leaves_unchanged fun j => htemp _ (encodeKey_ne_tmpName sha j path)).recovered_before
    hkey (.inl rfl)
  exact htemp _ (indexName_ne_tmpName path)

theorem set_recovered_iff (hK : Distinguishes sha K) (hkeys : ∀ j ∈ fs.manifest.keys, j ∈ K)
    (hkey : key ∈ K) (value : Bytes) (stop : SetStop) :
    Recovered sha K fs key (some value) (setStopped sha fs key value stop) ↔
      SetSafe sha K fs key stop := by
  cases stop with
  | temp written =>
      apply recovered_temp hkey (encodeKey sha key)
      intro name hname
      cases written with
      | none => rfl
      | some n => exact Directory.write_other _ _ hname
  | rename removed =>
      apply recovered_temp hkey (encodeKey sha key)
      intro name hname
      dsimp only [setStopped]
      split_ifs
      · rw [Directory.remove_other _ hname,Directory.write_other _ _ hname]
      · exact Directory.write_other _ _ hname
  | index written =>
      have hleaves := (leaves_replaced fs hK hkey value).written
        (manifestText (fs.manifest.set key (encodeKey sha key))) written
      cases written with
      | none =>
          refine (hleaves.recovered_before hkey (.inr rfl) (replaced_index value)).trans ?_
          simp only [SetSafe,Option.isSome_some,iff_true]
      | some n =>
          apply hleaves.recovered_torn hkey hkeys (fs.values_set sha key)
          · simp [Entries.mem_keys_set]
          · intro j hne
            simp [Entries.mem_keys_set,hne]
          · exact Directory.write_same ..

theorem delete_recovered_iff (hK : Distinguishes sha K) (hkeys : ∀ j ∈ fs.manifest.keys, j ∈ K)
    (hkey : key ∈ K) (stop : DeleteStop) :
    Recovered sha K fs key none (deleteStopped sha fs key stop) ↔
      DeleteSafe sha K fs key stop := by
  cases stop with
  | remove =>
      apply recovered_temp hkey (encodeKey sha key)
      exact fun name _ => rfl
  | index written =>
      have hleaves := (leaves_removed fs hK hkey).written
        (manifestText (fs.manifest.erase key)) written
      cases written with
      | none =>
          refine (hleaves.recovered_before hkey (.inr rfl) ?_).trans ?_
          · exact Directory.remove_other _ (encodeKey_ne_indexName sha key).symm
          · simp only [DeleteSafe,Option.isSome_none,Bool.false_eq_true,iff_false]
      | some n =>
          apply hleaves.recovered_torn hkey hkeys (fs.values_erase key)
          · simp [Entries.mem_keys_erase]
          · intro j hne
            simp [Entries.mem_keys_erase,hne]
          · exact Directory.write_same ..

end

/-- Each place where an update may stop, in any state of a store, with what it needs. -/
theorem stopped_updates_iff (sha : Sha256) {K : Set Bytes} (hK : Distinguishes sha K)
    (fs : FileStore) (hkeys : ∀ j ∈ fs.manifest.keys, j ∈ K) {key : Bytes} (hkey : key ∈ K) :
    (∀ value stop, Recovered sha K fs key (some value) (setStopped sha fs key value stop) ↔
      SetSafe sha K fs key stop) ∧
    ∀ stop, Recovered sha K fs key none (deleteStopped sha fs key stop) ↔
      DeleteSafe sha K fs key stop :=
  ⟨set_recovered_iff hK hkeys hkey,delete_recovered_iff hK hkeys hkey⟩

/-- A store with one key. -/
def oneKey : FileStore := (newFileStore fun _ => none).set paddedKey (text "a") [1]

def twoKeys : FileStore := oneKey.set paddedKey (text "b") [3]

/-- A key that is listed may be set again, whether or not the manifest is written, and the other
key has its value. -/
theorem stopped_updates_sample :
    let files := setStopped paddedKey twoKeys (text "a") [2] (.index none)
    Recovered paddedKey {text "a",text "b"} twoKeys (text "a") (some [2]) files ∧
      (newFileStore files).get paddedKey (text "b") = .ok [3] := by
  have hkeys : ∀ j ∈ twoKeys.manifest.keys, j ∈ ({text "a",text "b"} : Set Bytes) := by
    have hlist : twoKeys.manifest.keys = [text "a",text "b"] := by decide +kernel
    rw [hlist]
    simp
  refine ⟨((stopped_updates_iff paddedKey paddedKey_distinguishes twoKeys hkeys
    (Set.mem_insert _ _)).1 [2] _).mpr ?_,rfl⟩
  have hother : ∀ j ∈ ({text "a",text "b"} : Set Bytes), j ≠ text "a" → j = text "b" :=
    fun j hj hne => hj.resolve_left hne
  refine ⟨⟨?_,?_⟩,by decide +kernel⟩
  · intro j hj hne _
    rw [hother j hj hne]
    decide +kernel
  · intro j hj hne
    rw [hother j hj hne]
    exact ⟨fun _ => ⟨[3],rfl⟩,fun _ => by decide +kernel⟩

/-- A second key is set: stopped in front of the manifest it is found and not listed, and stopped
inside the manifest the first key is found and not listed. -/
theorem second_key_not_listed :
    (let fs := newFileStore (setStopped paddedKey oneKey (text "b") [2] (.index none))
    fs.get paddedKey (text "b") = .ok [2] ∧ fs.list [] = [text "a"]) ∧
    let fs := newFileStore (setStopped paddedKey oneKey (text "b") [2] (.index (some 0)))
    fs.get paddedKey (text "a") = .ok [1] ∧ fs.list [] = [] := by
  refine ⟨⟨rfl,?_⟩,rfl,?_⟩
  · decide +kernel
  · decide +kernel

end BaturWhatsApi.StoppedUpdates
