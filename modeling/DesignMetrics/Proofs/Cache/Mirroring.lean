import DesignMetrics.Cache.Directory
import DesignMetrics.Cache.Memory
import DesignMetrics.Proofs.Cache.Keys
import DesignMetrics.Proofs.Files.Paths

/-! A cache in a directory does what a cache in memory does.
A directory that was empty in the beginning has one file for each payload, as long as no operation on
files fails.
-/

namespace DesignMetrics

open Digest FileTree

theorem Digest.Blake3.length_hash (bytes : List UInt8) : (hash bytes).length = 32 := by
  simp [hash, Output.digest, List.length_flatMap]

theorem Digest.Blake3.length_hexHash (bytes : ByteArray) : (hexHash bytes).toList.length = 64 := by
  simp [hexHash, hex, List.length_flatMap, length_hash]

/-- Whether a tag can be an extension. -/
def CacheKey.IsPlain (k : CacheKey) : Prop := '.' ∉ k.tag.toList ∧ '/' ∉ k.tag.toList

instance (k : CacheKey) : Decidable k.IsPlain := inferInstanceAs (Decidable (_ ∧ _))

namespace DirectoryCache

variable (salt : String) (k : CacheKey)

def hashOf : String := Blake3.hexHash (k.key ++ salt).toUTF8

def shard : String := ((hashOf salt k).take 2).toString

def fileName : String := hashOf salt k ++ "." ++ k.tag

def temporaryName : String := hashOf salt k ++ "." ++ (k.tag ++ ".tmp")

theorem isName_shard : Path.IsName (shard salt k) := by
  have digits : (shard salt k).toList = (hashOf salt k).toList.take 2 := by simp [shard]
  have none {c : Char} (other : ∀ n < 16, hexDigit n ≠ c) : c ∉ (shard salt k).toList := by
    rw [digits]
    exact fun member => notMem_hex other _ (List.mem_of_mem_take member)
  have length : (shard salt k).toList.length = 2 := by
    rw [digits, List.length_take, hashOf, Blake3.length_hexHash]
    rfl
  refine ⟨?_, none (by decide), ?_⟩
  · intro empty
    simp [empty] at length
  · have dot := none (c := '.') (by decide)
    rw [Path.isDots_eq_false]
    constructor
    · intro same
      simp [same] at dot
    · intro same
      simp [same] at dot

variable {salt k} in
theorem isName_hash {rest : String} (plain : '/' ∉ rest.toList)
    : Path.IsName (hashOf salt k ++ "." ++ rest) := by
  have length : 65 ≤ (hashOf salt k ++ "." ++ rest).toList.length := by
    simp only [hashOf, String.toList_append, List.length_append, Blake3.length_hexHash]
    exact Nat.le_add_right 65 _
  have long {text : String} (short : text.toList.length < 65) : hashOf salt k ++ "." ++ rest ≠ text := by
    rintro rfl
    omega
  refine ⟨long (by decide), ?_, ?_⟩
  · simp only [String.toList_append, List.mem_append, not_or]
    exact ⟨⟨notMem_hex (by decide) _, by decide⟩, plain⟩
  · exact Path.isDots_eq_false.mpr ⟨long (by decide), long (by decide)⟩

def temporaryPath (root salt : String) (k : CacheKey) : String :=
  Path.withExtension (entryPath root salt k) (k.tag ++ ".tmp")

def folder (c : DirectoryCache) (k : CacheKey) : List String :=
  Path.location c.files.working c.root ++ [shard c.salt k]

def place (c : DirectoryCache) (k : CacheKey) : List String := folder c k ++ [fileName c.salt k]

def temporaryPlace (c : DirectoryCache) (k : CacheKey) : List String :=
  folder c k ++ [temporaryName c.salt k]

variable {k}

theorem leadsTo_entryPath (c : DirectoryCache) (plain : k.IsPlain)
    : Path.LeadsTo c.files.working (entryPath c.root c.salt k) (folder c k) (fileName c.salt k) :=
  Path.leadsTo_join (isName_shard c.salt k) (isName_hash plain.2) _ c.root

theorem leadsTo_temporaryPath (c : DirectoryCache) (plain : k.IsPlain)
    : Path.LeadsTo c.files.working (temporaryPath c.root c.salt k) (folder c k)
        (temporaryName c.salt k) := by
  have some : hashOf c.salt k ≠ "" := by
    intro empty
    have length := Blake3.length_hexHash (k.key ++ c.salt).toUTF8
    rw [show Blake3.hexHash (k.key ++ c.salt).toUTF8 = "" from empty] at length
    simp at length
  have moved : temporaryPath c.root c.salt k
      = Path.join (Path.join c.root (shard c.salt k)) (temporaryName c.salt k) :=
    Path.withExtension_join (isName_shard c.salt k) (isName_hash plain.2) some plain.1 c.root _
  have longer : '/' ∉ (k.tag ++ ".tmp").toList := by simpa using plain.2
  rw [moved]
  exact Path.leadsTo_join (isName_shard c.salt k) (isName_hash longer) _ c.root

variable {k' : CacheKey}

/-- The hash and what follows it can be told from the whole. -/
theorem eq_of_names {rest rest' : String}
    (h : hashOf salt k ++ "." ++ rest = hashOf salt k' ++ "." ++ rest')
    : hashOf salt k = hashOf salt k' ∧ rest = rest' := by
  have none (k : CacheKey) : '.' ∉ (hashOf salt k).toList := notMem_hex (by decide) _
  have cut : (hashOf salt k).toList ++ '.' :: rest.toList
      = (hashOf salt k').toList ++ '.' :: rest'.toList := by
    simpa using congrArg String.toList h
  obtain ⟨hashes, rests⟩ := Text.eq_of_cut (none k) (none k') cut
  exact ⟨String.toList_inj.mp hashes, String.toList_inj.mp rests⟩

/-- No payload is kept where one is written to first. -/
theorem temporaryName_ne (plain : k'.IsPlain) : temporaryName salt k ≠ fileName salt k' := by
  intro same
  have tags := (eq_of_names salt same).2
  apply plain.1
  rw [← tags]
  simp

theorem temporaryPlace_ne (c : DirectoryCache) (plain : k'.IsPlain) : temporaryPlace c k ≠ place c k' := by
  intro same
  have names : temporaryName c.salt k = fileName c.salt k' := by
    simpa [temporaryPlace, place] using congrArg List.getLast? same
  exact temporaryName_ne c.salt plain names

/-- Whether each of the keys has a place of its own. -/
structure Separate (salt : String) (keys : List CacheKey) : Prop where
  plain : ∀ k ∈ keys, k.IsPlain
  apart : Blake3.Apart (keys.map fun k => (k.key ++ salt).toUTF8)

theorem Separate.eq_of_place {c : DirectoryCache} {keys : List CacheKey} (h : Separate c.salt keys)
    (left : k ∈ keys) (right : k' ∈ keys) (same : place c k = place c k') : k = k' := by
  have names : fileName c.salt k = fileName c.salt k' := by
    simpa [place] using congrArg List.getLast? same
  obtain ⟨hashes, tags⟩ := eq_of_names c.salt names
  have texts := h.apart _ (List.mem_map_of_mem left) _ (List.mem_map_of_mem right) hashes
  have keys : k.key = k'.key := by
    have whole := congrArg String.toList (String.toByteArray_inj.mp texts)
    exact String.toList_inj.mp (by simpa using whole)
  cases k
  cases k'
  simp_all

end DirectoryCache

namespace DirectoryCache

variable {c : DirectoryCache} {k : CacheKey} {payload : ByteArray} {files : FileTree}

/-- A payload that is written goes through three changes of the files. -/
theorem write_cases (ran : c.write k payload = (files, .ok ()))
    : ∃ made written, Extends c.files made
      ∧ made.write (temporaryPath c.root c.salt k) payload = .ok written
      ∧ written.rename (temporaryPath c.root c.salt k) (entryPath c.root c.salt k) = .ok files := by
  unfold write at ran
  dsimp only at ran
  split at ran
  · simp at ran
  · rename_i made outcome
    have outer := extends_makeDirectories c.files
      ((Path.parent? (entryPath c.root c.salt k)).getD "")
    rw [outcome] at outer
    split at ran
    · simp at ran
    · rename_i written first
      split at ran
      · simp at ran
      · rename_i renamed second
        obtain rfl : renamed = files := congrArg Prod.fst ran
        exact ⟨made, written, outer, first, second⟩

/-- A payload that is written changes one file, if there was none where it is written to first. -/
theorem rewrites_write (plain : k.IsPlain)
    (free : ∀ old, c.files.top.kindAt? (temporaryPlace c k) ≠ some (.file old))
    (ran : c.write k payload = (files, .ok ()))
    : c.files.Rewrites files (place c k) (some payload) ∧ files.Opens (entryPath c.root c.salt k) := by
  obtain ⟨made, written, outer, first, second⟩ := write_cases ran
  have free' (old : ByteArray) : made.top.kindAt? (temporaryPlace c k) ≠ some (.file old) :=
    mt (outer.files _ old).mp (free old)
  obtain ⟨changed, opens⟩ := rewrites_rename (outer.working ▸ leadsTo_temporaryPath c plain)
    (outer.working ▸ leadsTo_entryPath c plain) (temporaryName_ne c.salt plain) free' first second
  exact ⟨outer.rewrites changed, opens⟩

variable (c k payload)

theorem run_store : (CacheStore.store k payload).run c
    = ((c.write k payload).2, { c with files := (c.write k payload).1 }) := by
  simp only [CacheStore.store, StateT.run_bind, StateT.run_get, pure_bind]
  -- The files that are written stay closed; to look into them would mean to hash.
  generalize c.write k payload = ran
  rfl

theorem run_restore : (CacheStore.restore k).run c
    = ((c.files.read (entryPath c.root c.salt k)).toOption, c) := rfl

theorem run_remove : (CacheStore.remove k).run c
    = ((), { c with files := (c.files.remove (entryPath c.root c.salt k)).toOption.getD c.files }) := by
  simp only [CacheStore.remove, StateT.run_modify]
  cases c.files.remove (entryPath c.root c.salt k) <;> rfl

end DirectoryCache

namespace MemoryCache

variable (m : MemoryCache) (k : CacheKey)

theorem run_store (payload : ByteArray)
    : (CacheStore.store k payload).run m = (.ok (), ⟨m.entries.insert k payload⟩) := rfl

theorem run_restore : (CacheStore.restore k).run m = (m.entries[k]?, m) := rfl

theorem run_remove : (CacheStore.remove k).run m = ((), ⟨m.entries.erase k⟩) := rfl

theorem getElem?_insert (payload : ByteArray) (k' : CacheKey)
    : (m.entries.insert k payload)[k']? = if k' = k then some payload else m.entries[k']? := by
  by_cases same : k' = k
  · simp [same]
  · simp [Std.TreeMap.getElem?_insert, same, Ne.symm same]

theorem getElem?_erase (k' : CacheKey)
    : (m.entries.erase k)[k']? = if k' = k then none else m.entries[k']? := by
  by_cases same : k' = k
  · simp [same]
  · simp [Std.TreeMap.getElem?_erase, same, Ne.symm same]

end MemoryCache

/-- What can be asked of a cache. -/
inductive CacheCall where
  | store (k : CacheKey) (payload : ByteArray)
  | restore (k : CacheKey)
  | remove (k : CacheKey)

/-- What a cache answers. -/
inductive CacheAnswer where
  | stored (result : Except CacheFault Unit)
  | restored (payload : Option ByteArray)
  | removed

def CacheAnswer.isFailure : CacheAnswer → Bool
  | stored (.error _) => true
  | _ => false

namespace CacheCall

def key : CacheCall → CacheKey
  | store k _ => k
  | restore k => k
  | remove k => k

def leaves : CacheCall → Option ByteArray → Option ByteArray
  | store _ payload, _ => some payload
  | restore _, kept => kept
  | remove _, _ => none

variable {κ : Type} [CacheStore κ]

def perform : CacheCall → StateM κ CacheAnswer
  | store k payload => return .stored (← CacheStore.store k payload)
  | restore k => return .restored (← CacheStore.restore k)
  | remove k => do
    CacheStore.remove k
    return .removed

theorem run_perform_store (k : CacheKey) (payload : ByteArray) (c : κ)
    : (perform (store k payload)).run c
      = (.stored ((CacheStore.store k payload).run c).1, ((CacheStore.store k payload).run c).2) := rfl

theorem run_perform_restore (k : CacheKey) (c : κ)
    : (perform (restore k)).run c
      = (.restored ((CacheStore.restore k).run c).1, ((CacheStore.restore k).run c).2) := rfl

theorem run_perform_remove (k : CacheKey) (c : κ)
    : (perform (remove k)).run c = (.removed, ((CacheStore.remove k).run c).2) := rfl

def performAll (calls : List CacheCall) : StateM κ (List CacheAnswer) := calls.mapM perform

theorem run_performAll_cons (call : CacheCall) (calls : List CacheCall) (c : κ)
    : (performAll (call :: calls)).run c
      = ((call.perform.run c).1 :: ((performAll calls).run (call.perform.run c).2).1,
        ((performAll calls).run (call.perform.run c).2).2) := by
  rw [performAll, List.mapM_cons]
  rfl

end CacheCall

namespace MemoryCache

/-- A call changes nothing but what is under its key. -/
theorem entries_perform (m : MemoryCache) (call : CacheCall) (k : CacheKey)
    : (call.perform.run m).2.entries[k]?
      = if k = call.key then call.leaves m.entries[k]? else m.entries[k]? := by
  cases call with
  | store k' payload => exact m.getElem?_insert k' payload k
  | restore k' => exact (ite_self _).symm
  | remove k' => exact m.getElem?_erase k' k

/-- What is under a key comes of the calls with this key alone. -/
theorem entries_performAll (m : MemoryCache) (calls : List CacheCall) (k : CacheKey)
    : ((CacheCall.performAll calls).run m).2.entries[k]?
      = (calls.filter (k = ·.key)).foldl (fun kept call => call.leaves kept) m.entries[k]? := by
  induction calls generalizing m with
  | nil => rfl
  | cons call calls ih =>
    rw [CacheCall.run_performAll_cons]
    dsimp only
    rw [ih, entries_perform]
    by_cases same : k = call.key
    · simp [same]
    · simp [same]

end MemoryCache

namespace DirectoryCache

variable {start c : DirectoryCache} {keys : List CacheKey} {m : MemoryCache} {k : CacheKey}

/-- Whether a directory has its files from the start, and one for each payload in memory. -/
structure Mirrors (start : DirectoryCache) (keys : List CacheKey) (c : DirectoryCache) (m : MemoryCache)
    : Prop where
  root : c.root = start.root
  salt : c.salt = start.salt
  working : c.files.working = start.files.working
  known : ∀ k payload, m.entries[k]? = some payload → k ∈ keys
  opens : ∀ k payload, m.entries[k]? = some payload
    → c.files.Opens (entryPath start.root start.salt k)
  files : ∀ names content, c.files.top.kindAt? names = some (.file content)
    ↔ start.files.top.kindAt? names = some (.file content)
      ∨ ∃ k, m.entries[k]? = some content ∧ names = place start k

/-- Whether there is no file at or below the root. -/
def Fresh (c : DirectoryCache) : Prop :=
  ∀ names content,
    c.files.top.kindAt? (Path.location c.files.working c.root ++ names) ≠ some (.file content)

namespace Mirrors

variable (fresh : start.Fresh) (separate : Separate start.salt keys)

include fresh

theorem kindAt?_folder_ne (names : List String) (content : ByteArray)
    : start.files.top.kindAt? (folder start k ++ names) ≠ some (.file content) := by
  rw [folder, List.append_assoc]
  exact fresh _ content

include separate

variable (h : Mirrors start keys c m)

include h

omit fresh separate in
theorem places_eq (k : CacheKey)
    : place c k = place start k ∧ temporaryPlace c k = temporaryPlace start k := by
  simp [place, temporaryPlace, folder, h.root, h.salt, h.working]

omit fresh separate in
theorem leadsTo_entryPath (plain : k.IsPlain)
    : Path.LeadsTo c.files.working (entryPath start.root start.salt k) (folder start k)
        (fileName start.salt k) := by
  rw [h.working]
  exact DirectoryCache.leadsTo_entryPath start plain

/-- A payload is at its place exactly if it is in memory. -/
theorem kindAt?_place (member : k ∈ keys) (content : ByteArray)
    : c.files.top.kindAt? (place start k) = some (.file content)
      ↔ m.entries[k]? = some content := by
  rw [h.files]
  constructor
  · rintro (old | ⟨k', kept, same⟩)
    · exact absurd old (kindAt?_folder_ne fresh _ content)
    · rwa [separate.eq_of_place member (h.known k' content kept) same]
  · intro kept
    exact .inr ⟨k, kept, rfl⟩

/-- Nothing is left where payloads are written to first. -/
theorem kindAt?_temporaryPlace (content : ByteArray)
    : c.files.top.kindAt? (temporaryPlace start k) ≠ some (.file content) := by
  rw [ne_eq, h.files]
  rintro (old | ⟨k', kept, same⟩)
  · exact kindAt?_folder_ne fresh _ content old
  · exact temporaryPlace_ne start (separate.plain k' (h.known k' content kept)) same

theorem read_iff (member : k ∈ keys) (content : ByteArray)
    : c.files.read (entryPath start.root start.salt k) = .ok content
      ↔ m.entries[k]? = some content := by
  rw [FileTree.read_iff (leadsTo_entryPath h (separate.plain k member))]
  refine (and_congr_right fun _ => kindAt?_place fresh separate h member content).trans ?_
  exact and_iff_right_of_imp (h.opens k content)

/-- The file of a payload changes with the payload. -/
theorem rewrite (member : k ∈ keys) {files : FileTree} {content : Option ByteArray}
    (changed : c.files.Rewrites files (place start k) content)
    (opens : content ≠ none → files.Opens (entryPath start.root start.salt k)) {m' : MemoryCache}
    (entries : ∀ k', m'.entries[k']? = if k' = k then content else m.entries[k']?)
    : Mirrors start keys { c with files } m' := by
  refine ⟨h.root, h.salt, changed.working.trans h.working, fun k' payload => ?_,
    fun k' payload => ?_, fun names old => ?_⟩
  · rw [entries]
    split
    · rename_i same
      exact fun _ => same ▸ member
    · exact h.known k' payload
  · rw [entries]
    split
    · rename_i same
      rintro rfl
      exact same ▸ opens (by simp)
    · intro kept
      exact (h.opens k' payload kept).mono
        (leadsTo_entryPath h (separate.plain k' (h.known k' payload kept))) changed.toKeepsDirectories
  · rw [changed.files]
    simp only [entries]
    by_cases here : names = place start k
    · subst here
      rw [if_pos rfl]
      constructor
      · intro new
        exact .inr ⟨k, by rwa [if_pos rfl], rfl⟩
      · rintro (before | ⟨k', kept, same⟩)
        · exact absurd before (kindAt?_folder_ne fresh _ old)
        · by_cases other : k' = k
          · rwa [if_pos other] at kept
          · rw [if_neg other] at kept
            exact absurd (separate.eq_of_place member (h.known k' old kept) same).symm other
    · rw [if_neg here, h.files]
      refine or_congr_right (exists_congr fun k' => and_congr_left fun same => ?_)
      rw [if_neg]
      rintro rfl
      exact here same

theorem store (member : k ∈ keys) {payload : ByteArray}
    (written : ((CacheStore.store k payload).run c).1 = .ok ())
    : Mirrors start keys ((CacheStore.store k payload).run c).2
        ((CacheStore.store k payload).run m).2 := by
  cases ran : c.write k payload with
  | mk files result =>
    rw [run_store, ran] at written
    rw [run_store, ran, MemoryCache.run_store]
    dsimp only at written ⊢
    subst written
    have free (old : ByteArray) := kindAt?_temporaryPlace (k := k) fresh separate h old
    rw [← (places_eq h k).2] at free
    obtain ⟨changed, opens⟩ := rewrites_write (separate.plain k member) free ran
    rw [(places_eq h k).1] at changed
    rw [h.root, h.salt] at opens
    exact rewrite fresh separate h member changed (fun _ => opens) (m.getElem?_insert k payload)

theorem restore (member : k ∈ keys)
    : ((CacheStore.restore k).run c).1 = ((CacheStore.restore k).run m).1 := by
  rw [run_restore, MemoryCache.run_restore, h.root, h.salt]
  ext content
  rw [← read_iff fresh separate h member content]
  cases c.files.read (entryPath start.root start.salt k) <;> simp [Except.toOption]

theorem remove (member : k ∈ keys)
    : Mirrors start keys ((CacheStore.remove k).run c).2 ((CacheStore.remove k).run m).2 := by
  have toEntry := leadsTo_entryPath h (separate.plain k member)
  have changed : c.files.Rewrites ((c.files.remove (entryPath c.root c.salt k)).toOption.getD c.files)
      (place start k) none := by
    rw [h.root, h.salt]
    cases ran : c.files.remove (entryPath start.root start.salt k) with
    | ok files => exact rewrites_remove toEntry ran
    | error fault =>
      -- A file that could not be removed was not there, for otherwise it could be read.
      have absent (old : ByteArray)
          : c.files.top.kindAt? (place start k) ≠ some (.file old) := by
        rw [ne_eq, kindAt?_place fresh separate h member, ← read_iff fresh separate h member]
        intro there
        simp [(remove_iff toEntry).mpr ⟨old, there, rfl⟩] at ran
      refine ⟨⟨rfl, fun _ here => here⟩, fun names old => ?_⟩
      split
      · rename_i same
        simp [same, Except.toOption, absent]
      · rfl
  rw [run_remove, MemoryCache.run_remove]
  exact rewrite fresh separate h member changed (fun some => absurd rfl some) (m.getElem?_erase k)

/-- A call is answered alike by a cache in a directory and by one in memory, unless a file could not be
written. -/
theorem perform {call : CacheCall} (member : call.key ∈ keys)
    (written : (call.perform.run c).1.isFailure = false)
    : (call.perform.run c).1 = (call.perform.run m).1
      ∧ Mirrors start keys (call.perform.run c).2 (call.perform.run m).2 := by
  cases call with
  | store k payload =>
    have member : k ∈ keys := member
    rw [CacheCall.run_perform_store] at written
    rw [CacheCall.run_perform_store, CacheCall.run_perform_store]
    dsimp only at written ⊢
    have stored : ((CacheStore.store k payload).run c).1 = .ok () := by
      cases result : ((CacheStore.store k payload).run c).1 with
      | error fault => simp [result, CacheAnswer.isFailure] at written
      | ok _ => rfl
    refine ⟨?_, store fresh separate h member stored⟩
    rw [stored, MemoryCache.run_store]
  | restore k =>
    have member : k ∈ keys := member
    rw [CacheCall.run_perform_restore, CacheCall.run_perform_restore]
    dsimp only
    rw [restore fresh separate h member, run_restore, MemoryCache.run_restore]
    exact ⟨rfl, h⟩
  | remove k =>
    have member : k ∈ keys := member
    rw [CacheCall.run_perform_remove, CacheCall.run_perform_remove]
    dsimp only
    exact ⟨rfl, remove fresh separate h member⟩

/-- The same holds of one call after the other. -/
theorem performAll {calls : List CacheCall} (member : ∀ call ∈ calls, call.key ∈ keys)
    (written : ∀ answer ∈ ((CacheCall.performAll calls).run c).1, answer.isFailure = false)
    : ((CacheCall.performAll calls).run c).1 = ((CacheCall.performAll calls).run m).1
      ∧ Mirrors start keys ((CacheCall.performAll calls).run c).2
          ((CacheCall.performAll calls).run m).2 := by
  induction calls generalizing c m with
  | nil => exact ⟨rfl, h⟩
  | cons call calls ih =>
    simp only [CacheCall.run_performAll_cons, List.forall_mem_cons] at written ⊢
    obtain ⟨answer, next⟩ := perform fresh separate h (member call List.mem_cons_self) written.1
    obtain ⟨answers, last⟩ :=
      ih next (fun other tail => member other (List.mem_cons_of_mem _ tail)) written.2
    exact ⟨by rw [answer, answers], last⟩

end Mirrors

/-- At the start there is nothing in memory and no new file. -/
theorem mirrors_start (start : DirectoryCache) (keys : List CacheKey) : Mirrors start keys start {} := by
  refine ⟨rfl, rfl, rfl, ?_, ?_, ?_⟩ <;> simp

end DirectoryCache

open CacheCall in
/-- A cache in a directory without files answers like a cache in memory, as long as all payloads can be
written. Afterwards the payload of a key is what the calls with this key left, every new file is that of
a payload, and none is left where payloads are written to first. -/
theorem directory_answers_as_memory {start : DirectoryCache} {calls : List CacheCall}
    (plain : ∀ call ∈ calls, call.key.IsPlain)
    (apart : Blake3.Apart (calls.map fun call => (call.key.key ++ start.salt).toUTF8))
    (fresh : start.Fresh)
    (written : ∀ answer ∈ ((performAll calls).run start).1, answer.isFailure = false)
    : ((performAll calls).run start).1 = ((performAll calls).run ({} : MemoryCache)).1
      ∧ (∀ call ∈ calls,
          (((performAll calls).run start).2.files.read
              (DirectoryCache.entryPath start.root start.salt call.key)).toOption
            = (calls.filter (call.key = ·.key)).foldl (fun kept other => other.leaves kept) none)
      ∧ (∀ names content,
          ((performAll calls).run start).2.files.top.kindAt? names = some (.file content)
            ↔ start.files.top.kindAt? names = some (.file content)
              ∨ ∃ k, ((performAll calls).run ({} : MemoryCache)).2.entries[k]? = some content
                  ∧ names = DirectoryCache.place start k)
      ∧ ∀ call ∈ calls, ∀ content,
          ((performAll calls).run start).2.files.read
            (DirectoryCache.temporaryPath start.root start.salt call.key) ≠ .ok content := by
  have separate : DirectoryCache.Separate start.salt (calls.map key) := by
    refine ⟨?_, ?_⟩
    · intro k member
      obtain ⟨call, asked, rfl⟩ := List.mem_map.mp member
      exact plain call asked
    · rwa [List.map_map]
  have asked {call : CacheCall} (member : call ∈ calls) : call.key ∈ calls.map key :=
    List.mem_map_of_mem member
  obtain ⟨answers, after⟩ := DirectoryCache.Mirrors.performAll fresh separate
    (DirectoryCache.mirrors_start start _) (fun _ => asked) written
  refine ⟨answers, fun call member => ?_, after.files, fun call member content there => ?_⟩
  · have kept := DirectoryCache.Mirrors.restore fresh separate after (asked member)
    rw [DirectoryCache.run_restore, after.root, after.salt, MemoryCache.run_restore] at kept
    dsimp only at kept
    rw [kept, MemoryCache.entries_performAll]
    simp
  · have toTemporary := DirectoryCache.leadsTo_temporaryPath start (plain call member)
    rw [← after.working] at toTemporary
    have found := ((FileTree.read_iff toTemporary).mp there).2
    exact DirectoryCache.Mirrors.kindAt?_temporaryPlace fresh separate after content found

def mixedCalls : List CacheCall :=
  [.store ⟨"a", "unit"⟩ "1".toUTF8, .store ⟨"a", "record"⟩ "2".toUTF8, .store ⟨"b", "unit"⟩ "3".toUTF8,
    .remove ⟨"a", "unit"⟩, .restore ⟨"a", "unit"⟩, .restore ⟨"a", "record"⟩, .restore ⟨"b", "unit"⟩]

theorem directory_answers_as_memory_mixed
    : ((CacheCall.performAll mixedCalls).run (DirectoryCache.mk .empty "/cache" "salt")).1
      = [.stored (.ok ()), .stored (.ok ()), .stored (.ok ()), .removed,
        .restored none, .restored (some "2".toUTF8), .restored (some "3".toUTF8)] := by
  have keys : ∀ call ∈ mixedCalls, call.key.key ∈ ["a", "b"] := by decide +kernel
  have texts : ∀ text ∈ mixedCalls.map fun call => (call.key.key ++ "salt").toUTF8,
      text ∈ ["a", "b"].map fun key => (key ++ "salt").toUTF8 := by
    intro text member
    obtain ⟨call, asked, rfl⟩ := List.mem_map.mp member
    exact List.mem_map_of_mem (keys call asked)
  have apart : Blake3.Apart (["a", "b"].map fun key => (key ++ "salt").toUTF8) := by decide +kernel
  refine (directory_answers_as_memory (by decide +kernel) ?_ ?_ ?_).1.trans rfl
  · exact fun x left y right => apart x (texts x left) y (texts y right)
  · intro names content
    have root : Path.location FileTree.empty.working "/cache" = ["cache"] := by decide +kernel
    show FileTree.empty.top.kindAt? (Path.location FileTree.empty.working "/cache" ++ names) ≠ _
    rw [root]
    simp [FileEntry.kindAt?_cons, FileTree.top, FileTree.empty, FileTree.directory, FileEntry.child?,
      FileEntry.entries]
  · decide +kernel

end DesignMetrics
