/-
  File:      Veesker/Host/WalletFiles.lean
  Subject:   WHAT AN EXTRACTION LEAVES ON THE DISK (`extract_to` in
             src-tauri/src/persistence/wallet.rs): in the destination, and outside of it.

  The old directory goes before the first entry is read, and a required file is looked for by its
  name only; a file above the limit is left out.

  * `join_entry` -- an entry that is not left out is written right below the destination.
  * `extractDisk_view` -- seen from the destination, the disk is as `extractTo` says.
  * **`extract_meets_iff`**: nothing outside changes, a success leaves exactly the acceptable entries
    and both required files, and an error leaves everything, exactly in the cases `Spared` names.
  * `extract_oversized` -- a success without the file that the wallet is about.
-/
import Veesker.Format.Path
import Veesker.Host.Wallet

namespace Veesker.Host

open Format List

/-! ## 1. The disk -/

/-- The files of a disk, and whether the destination is there. -/
@[ext]
structure Disk (dest : Path) where
  isDir : Bool
  file : Path → Option Bytes
  none_below : isDir = false → ∀ q, StrictlyInside dest q → file q = none

/-- What the file system answers to an extraction. -/
structure DiskFaults where
  /-- `remove_dir_all` fails, and this is left below the destination. -/
  removal : Option (Text × (Path → Option Bytes)) := none
  creation : Option Text := none
  entry : Option (Nat × EntryFault) := none

/-! ## 2. The extraction -/

section

variable (p : Platform) (dest : Path) (fault : Option (Nat × EntryFault))

/-- The loop of `extract_to`, `out_path` being `dest_dir.join(&name)`. -/
def writeFiles : Nat → Archive → (Path → Option Bytes) → (Path → Option Bytes) × Option WalletError
  | _, [], file => (file, none)
  | i, e :: es, file =>
    let here := (fault.filter fun f => f.1 == i).map Prod.snd
    match here with
    | some (.read error) => (file, some (.zip error))
    | some (.create error) =>
      if e.skipped then writeFiles (i + 1) es file else (file, some (.io error))
    | some (.copy done error) =>
      if e.skipped then writeFiles (i + 1) es file
      else (Function.update file (join p dest e.name) (some (e.content.take done)),
        some (.io error))
    | none =>
      if e.skipped then writeFiles (i + 1) es file
      else writeFiles (i + 1) es
        (Function.update file (join p dest e.name) (some (e.content.take maxWalletFileBytes)))

end

/-- Everything below the destination is gone. -/
def emptied (dest : Path) (file : Path → Option Bytes) : Path → Option Bytes :=
  fun q => if StrictlyInside dest q then none else file q

theorem emptied_below {dest q : Path} (file : Path → Option Bytes) (h : StrictlyInside dest q) :
    emptied dest file q = none := if_pos h

/-- `extract_to`: the disk after it, and the error. -/
def extractDisk (p : Platform) (dest : Path) (archive : Except WalletError Archive)
    (faults : DiskFaults) (disk : Disk dest) : Disk dest × Option WalletError :=
  match archive with
  | .error e => (disk, some e)
  | .ok archive =>
    match missingRequired archive with
    | some required => (disk, some (.missingFile required))
    | none =>
      match faults.removal.filter fun _ => disk.isDir with
      | some (error, left) =>
        ({ isDir := true
           file := fun q => if StrictlyInside dest q then left q else disk.file q
           none_below := nofun }, some (.io error))
      | none => match faults.creation with
        | some error =>
          ({ isDir := false
             file := emptied dest disk.file
             none_below := fun _ _ h => emptied_below _ h }, some (.io error))
        | none =>
          let r := writeFiles p dest faults.entry 0 archive (emptied dest disk.file)
          ({ isDir := true, file := r.1, none_below := nofun }, r.2)

/-! ## 3. Where an entry is written -/

theorem segments_plain {p : Platform} {t : Text} (h : ∀ c ∈ t, p.isSep c = false) :
    segments p t = [t] := by
  induction t with
  | nil => rfl
  | cons c t ih =>
    rw [segments, h c mem_cons_self, if_neg Bool.false_ne_true,
      ih fun d hd => h d (mem_cons_of_mem _ hd)]

variable {e : Entry}

/-- **An entry that is not left out is written right below the destination.** -/
theorem join_entry (p : Platform) (dest : Path) (h : e.skipped = false) :
    join p dest e.name = dest ++ [e.name] := by
  simp only [Entry.skipped, Bool.or_eq_false_iff, beq_eq_false_iff_ne, contains_eq_mem,
    decide_eq_false_iff_not, isEmpty_eq_false_iff] at h
  obtain ⟨⟨⟨⟨⟨⟨⟨⟨hne, hdot⟩, hdots⟩, -⟩, hslash⟩, hback⟩, -⟩, -⟩, -⟩ := h
  have hsep : ∀ c ∈ e.name, p.isSep c = false := by
    intro c hc
    have h1 : c ≠ '/' := fun hs => hslash (hs ▸ hc)
    have h2 : c ≠ '\\' := fun hs => hback (hs ▸ hc)
    cases p <;> simp [Platform.isSep, h1, h2]
  have hdescent : descent p e.name = { ups := 0, downs := [e.name] } := by
    rw [descent, segments_plain hsep, foldl_cons, foldl_nil, Descent.step,
      if_neg (not_or.mpr ⟨hne, hdot⟩), if_neg hdots]
    rfl
  rw [join, hdescent, Nat.sub_zero, take_length]

theorem below_entry (dest : Path) (name : Text) : StrictlyInside dest (dest ++ [name]) :=
  ⟨prefix_append _ _, by rw [length_append, length_singleton]; omega⟩

/-! ## 4. What the loop leaves -/

/-- Where the loop stops, if it does: the entries before, the entry, and what failed. -/
def stopsAt (fault : Option (Nat × EntryFault)) : Nat → Archive →
    Option (Archive × Entry × EntryFault)
  | _, [] => none
  | i, e :: es =>
    let behind := (stopsAt fault (i + 1) es).map fun s => (e :: s.1, s.2)
    match (fault.filter fun f => f.1 == i).map Prod.snd with
    | some (.read error) => some ([], e, .read error)
    | some k => if e.skipped then behind else some ([], e, k)
    | none => behind

/-- The files of the entries that are not left out, each up to the limit. -/
def holding (dest : Path) (es : Archive) (q : Path) : Option Bytes :=
  (es.find? fun e => !e.skipped && decide (q = dest ++ [e.name])).map fun e =>
    e.content.take maxWalletFileBytes

/-- What a failing entry has written of itself. -/
def EntryFault.part (dest : Path) (e : Entry) : EntryFault → Path → Option Bytes
  | .copy done _, q => if q = dest ++ [e.name] then some (e.content.take done) else none
  | _, _ => none

def EntryFault.error : EntryFault → WalletError
  | .read error => .zip error
  | .create error => .io error
  | .copy _ error => .io error

variable {dest : Path}

theorem holding_cons_skipped (h : e.skipped = true) (es : Archive)
    (q : Path) : holding dest (e :: es) q = holding dest es q := by
  simp [holding, h]

theorem holding_cons_here (h : e.skipped = false) (es : Archive) :
    holding dest (e :: es) (dest ++ [e.name]) = some (e.content.take maxWalletFileBytes) := by
  simp [holding, h]

theorem holding_cons_ne {q : Path} (h : q ≠ dest ++ [e.name])
    (es : Archive) : holding dest (e :: es) q = holding dest es q := by
  simp [holding, h]

theorem holding_eq_none {es : Archive} {name : Text}
    (h : name ∉ es.map Entry.name) : holding dest es (dest ++ [name]) = none := by
  rw [holding, Option.map_eq_none_iff, List.find?_eq_none]
  intro e he hm
  rw [Bool.and_eq_true, decide_eq_true_eq] at hm
  have := append_cancel_left hm.2
  exact h ((singleton_inj.mp this) ▸ mem_map_of_mem he)

/-- What the loop has written, by where it stops. -/
def written (dest : Path) (es : Archive) :
    Option (Archive × Entry × EntryFault) → Path → Option Bytes
  | none, q => holding dest es q
  | some (front, e, k), q => (k.part dest e q).or (holding dest front q)

theorem part_ne {k : EntryFault} {q : Path}
    (h : q ≠ dest ++ [e.name]) : k.part dest e q = none := by
  cases k with
  | read error => rfl
  | create error => rfl
  | copy done error => exact if_neg h

variable {fault : Option (Nat × EntryFault)}

/-- The loop stops at an entry of the archive, which it read, or would have written. -/
theorem stopsAt_some {es front : Archive}
    {k : EntryFault} {i : Nat} (h : stopsAt fault i es = some (front, e, k)) :
    e ∈ es ∧ ∀ x ∈ front, x ∈ es := by
  induction es generalizing i front with
  | nil => cases h
  | cons x es ih =>
    have hbehind : (stopsAt fault (i + 1) es).map (fun s => (x :: s.1, s.2)) =
        some (front, e, k) → e ∈ x :: es ∧ ∀ y ∈ front, y ∈ x :: es := by
      intro hb
      obtain ⟨s, hs, heq⟩ := Option.map_eq_some_iff.mp hb
      obtain ⟨front', e', k'⟩ := s
      cases heq
      obtain ⟨he, hf⟩ := ih hs
      refine ⟨mem_cons_of_mem _ he, fun y hy => ?_⟩
      rcases mem_cons.mp hy with rfl | hy
      · exact mem_cons_self
      · exact mem_cons_of_mem _ (hf y hy)
    have hhere : ∀ k', some (([] : Archive), x, k') = some (front, e, k) →
        e ∈ x :: es ∧ ∀ y ∈ front, y ∈ x :: es := by
      intro k' hk
      cases hk
      exact ⟨mem_cons_self, nofun⟩
    rw [stopsAt] at h
    split at h
    · exact hhere _ h
    · split at h
      · exact hbehind h
      · exact hhere _ h
    · exact hbehind h

/-- The first entry was written, and the rest of the loop wrote what it wrote. -/
theorem written_cons {es : Archive}
    {i : Nat} (he : e.skipped = false) (hn : e.name ∉ es.map Entry.name)
    (file : Path → Option Bytes) (q : Path) :
    (written dest es (stopsAt fault i es) q).or (Function.update file (dest ++ [e.name])
      (some (e.content.take maxWalletFileBytes)) q) =
    (written dest (e :: es) ((stopsAt fault i es).map fun s => (e :: s.1, s.2)) q).or (file q) := by
  by_cases hq : q = dest ++ [e.name]
  · subst hq
    rw [Function.update_self]
    cases hs : stopsAt fault i es with
    | none => simp only [Option.map_none, written, holding_eq_none hn, holding_cons_here he,
        Option.none_or, Option.some_or]
    | some s =>
      obtain ⟨front, x, k⟩ := s
      obtain ⟨hx, hfront⟩ := stopsAt_some hs
      have hne : dest ++ [e.name] ≠ dest ++ [x.name] := by
        intro h
        have := singleton_inj.mp (append_cancel_left h)
        exact hn (this ▸ mem_map_of_mem hx)
      have hnf : e.name ∉ front.map Entry.name := by
        intro h
        obtain ⟨y, hy, hname⟩ := mem_map.mp h
        exact hn (hname ▸ mem_map_of_mem (hfront y hy))
      simp only [Option.map_some, written, part_ne hne, holding_eq_none hnf,
        holding_cons_here he, Option.none_or, Option.some_or]
  · rw [Function.update_of_ne hq]
    cases hs : stopsAt fault i es with
    | none => simp only [Option.map_none, written, holding_cons_ne hq]
    | some s => simp only [Option.map_some, written, holding_cons_ne hq]

theorem written_skipped
    {es : Archive} {i : Nat} (he : e.skipped = true) (q : Path) :
    written dest (e :: es) ((stopsAt fault i es).map fun s => (e :: s.1, s.2)) q =
      written dest es (stopsAt fault i es) q := by
  cases hs : stopsAt fault i es with
  | none => simp only [Option.map_none, written, holding_cons_skipped he]
  | some s => simp only [Option.map_some, written, holding_cons_skipped he]

/-- **What the loop leaves**: what it has written, and elsewhere what was there. -/
theorem writeFiles_eq (p : Platform) (dest : Path) (fault : Option (Nat × EntryFault))
    (es : Archive) (hn : (es.map Entry.name).Nodup) (i : Nat) (file : Path → Option Bytes) :
    writeFiles p dest fault i es file =
      (fun q => (written dest es (stopsAt fault i es) q).or (file q),
        (stopsAt fault i es).map fun s => s.2.2.error) := by
  induction es generalizing i file with
  | nil => rfl
  | cons e es ih =>
    rw [map_cons, nodup_cons] at hn
    have hskip : e.skipped = true → writeFiles p dest fault (i + 1) es file =
        (fun q => (written dest (e :: es)
            ((stopsAt fault (i + 1) es).map fun s => (e :: s.1, s.2)) q).or (file q),
          ((stopsAt fault (i + 1) es).map fun s => (e :: s.1, s.2)).map fun s => s.2.2.error) := by
      intro he
      rw [ih hn.2, Option.map_map]
      refine Prod.ext (funext fun q => ?_) rfl
      simp only [written_skipped he]
    rw [writeFiles, stopsAt]
    cases (fault.filter fun f => f.1 == i).map Prod.snd with
    | none =>
      simp only
      split
      · exact hskip ‹_›
      · rename_i he
        rw [Bool.not_eq_true] at he
        rw [ih hn.2, Option.map_map, join_entry p dest he]
        refine Prod.ext (funext fun q => ?_) rfl
        exact written_cons he hn.1 file q
    | some k =>
      cases k with
      | read error => rfl
      | create error =>
        simp only
        split
        · exact hskip ‹_›
        · rfl
      | copy done error =>
        simp only
        split
        · exact hskip ‹_›
        · rename_i he
          rw [Bool.not_eq_true] at he
          rw [join_entry p dest he]
          refine Prod.ext (funext fun q => ?_) rfl
          by_cases hq : q = dest ++ [e.name]
          · subst hq
            simp [written, EntryFault.part]
          · simp [written, EntryFault.part, hq, holding]

/-! ## 5. Seen from the destination -/

def Disk.view {dest : Path} (disk : Disk dest) : Option Dir :=
  if disk.isDir then some fun name => disk.file (dest ++ [name]) else none

def DiskFaults.view (dest : Path) (faults : DiskFaults) : ExtractFaults where
  removal := faults.removal.map fun r => (r.1, some fun name => r.2 (dest ++ [name]))
  creation := faults.creation
  entry := faults.entry

theorem update_view (dest : Path) (file : Path → Option Bytes) (name : Text) (v : Option Bytes) :
    (fun n => Function.update file (dest ++ [name]) v (dest ++ [n])) =
      Function.update (fun n => file (dest ++ [n])) name v := by
  funext n
  by_cases hn : n = name
  · subst hn
    rw [Function.update_self, Function.update_self]
  · have hne : dest ++ [n] ≠ dest ++ [name] := fun h =>
      hn (singleton_inj.mp (append_cancel_left h))
    rw [Function.update_of_ne hne, Function.update_of_ne hn]

theorem writeFiles_view (p : Platform) (dest : Path) (fault : Option (Nat × EntryFault))
    (es : Archive) (i : Nat) (file : Path → Option Bytes) :
    writeEntries fault i es (fun n => file (dest ++ [n])) =
      (fun n => (writeFiles p dest fault i es file).1 (dest ++ [n]),
        (writeFiles p dest fault i es file).2) := by
  induction es generalizing i file with
  | nil => rfl
  | cons e es ih =>
    rw [writeEntries, writeFiles]
    cases (fault.filter fun f => f.1 == i).map Prod.snd with
    | none =>
      simp only
      split
      · exact ih _ _
      · rename_i he
        rw [join_entry p dest (by simpa using he), ← update_view]
        exact ih _ _
    | some k =>
      cases k with
      | read error => rfl
      | create error =>
        simp only
        split
        · exact ih _ _
        · rfl
      | copy done error =>
        simp only
        split
        · exact ih _ _
        · rename_i he
          rw [join_entry p dest (by simpa using he), update_view]

/-- **Seen from the destination the disk is as `extractTo` says.** -/
theorem extractDisk_view (p : Platform) (dest : Path) (archive : Except WalletError Archive)
    (faults : DiskFaults) (disk : Disk dest) :
    extractTo archive (faults.view dest) disk.view =
      ((extractDisk p dest archive faults disk).1.view,
        (extractDisk p dest archive faults disk).2) := by
  have hsome : disk.view.isSome = disk.isDir := by
    rw [Disk.view]
    cases disk.isDir <;> rfl
  have hinside : ∀ name, StrictlyInside dest (dest ++ [name]) := below_entry dest
  cases archive with
  | error e => rfl
  | ok es =>
    rw [extractTo, extractDisk]
    simp only
    cases missingRequired es with
    | some required => rfl
    | none =>
      simp only [DiskFaults.view, hsome]
      cases hrem : faults.removal.filter fun _ => disk.isDir with
      | some r =>
        obtain ⟨error, left⟩ := r
        obtain ⟨hr, hd⟩ := Option.filter_eq_some_iff.mp hrem
        rw [hr, hd]
        simp [Disk.view, hinside, Option.filter]
      | none =>
        have hview : (faults.removal.map fun r =>
            (r.1, (some fun name => r.2 (dest ++ [name]) : Option Dir))).filter
              (fun _ => disk.isDir) = none := by
          cases hr : faults.removal with
          | none => rfl
          | some r =>
            rw [hr] at hrem
            cases hd : disk.isDir with
            | false => rfl
            | true =>
              rw [hd] at hrem
              cases hrem
        rw [hview]
        simp only
        cases faults.creation with
        | some error => rfl
        | none =>
          have hempty : (fun _ => none : Dir) =
              fun name => emptied dest disk.file (dest ++ [name]) :=
            funext fun name => (emptied_below disk.file (hinside name)).symm
          simp only
          rw [hempty, writeFiles_view p dest]
          rfl

/-! ## 6. What is asked of an extraction -/

section

variable (p : Platform) (dest : Path) (faults : DiskFaults) (disk : Disk dest)

/-- What an extraction promises. -/
structure Meets (archive : Except WalletError Archive) : Prop where
  outside : ∀ q, ¬ StrictlyInside dest q →
    (extractDisk p dest archive faults disk).1.file q = disk.file q
  /-- A success leaves exactly the acceptable entries, and both required files completely. -/
  success : (extractDisk p dest archive faults disk).2 = none → ∃ es, archive = .ok es ∧
    (extractDisk p dest archive faults disk).1.isDir = true ∧
    (∀ q b, StrictlyInside dest q → ((extractDisk p dest archive faults disk).1.file q = some b ↔
      ∃ e ∈ es, e.skipped = false ∧ q = dest ++ [e.name] ∧ b = e.content)) ∧
    ∀ required ∈ requiredFiles, ∃ e ∈ es, e.name = required ∧
      (extractDisk p dest archive faults disk).1.file (dest ++ [required]) = some e.content
  failure : (extractDisk p dest archive faults disk).2 ≠ none →
    (extractDisk p dest archive faults disk).1 = disk

/-- Once the required names are there: nothing fails and nothing is left out of what counts, or what
    fails leaves everything as it was. -/
def Spared (es : Archive) : Prop :=
  match faults.removal.filter fun _ => disk.isDir with
  | some (_, left) => ∀ q, StrictlyInside dest q → left q = disk.file q
  | none => match faults.creation with
    | some _ => disk.isDir = false
    | none => match stopsAt faults.entry 0 es with
      | some s => disk.isDir = true ∧
          ∀ q, StrictlyInside dest q → disk.file q = written dest es (some s) q
      | none => (∀ e ∈ es, e.skipped = false → e.content.length ≤ maxWalletFileBytes) ∧
          ∀ e ∈ es, e.name ∈ requiredFiles → e.size ≤ maxWalletFileBytes

end

/-! ## 7. Exactly the cases -/

section

variable {p : Platform} {dest : Path} {faults : DiskFaults} {disk : Disk dest} {es : Archive}

theorem holding_some_iff (hn : (es.map Entry.name).Nodup) {q : Path} {b : Bytes} :
    holding dest es q = some b ↔ ∃ e ∈ es, e.skipped = false ∧ q = dest ++ [e.name] ∧
      b = e.content.take maxWalletFileBytes := by
  rw [holding, Option.map_eq_some_iff]
  constructor
  · intro h
    obtain ⟨e, he, rfl⟩ := h
    have hp := List.find?_some he
    rw [Bool.and_eq_true, Bool.not_eq_true', decide_eq_true_eq] at hp
    exact ⟨e, mem_of_find?_eq_some he, hp.1, hp.2, rfl⟩
  · intro h
    obtain ⟨e, he, hskip, rfl, rfl⟩ := h
    cases hf : es.find? fun x => !x.skipped && decide (dest ++ [e.name] = dest ++ [x.name]) with
    | none =>
      have := List.find?_eq_none.mp hf e he
      simp [hskip] at this
    | some x =>
      -- no other entry has the name
      have hp := List.find?_some hf
      rw [Bool.and_eq_true, decide_eq_true_eq] at hp
      have hname := singleton_inj.mp (append_cancel_left hp.2)
      have hx : x = e := inj_on_of_nodup_map hn (mem_of_find?_eq_some hf) he hname.symm
      exact ⟨x, rfl, by rw [hx]⟩

theorem required_plain (hr : e.name ∈ requiredFiles) :
    e.skipped = decide (maxWalletFileBytes < e.size) := by
  have hnames : e.name = tnsnamesOra ∨ e.name = "cwallet.sso".toList := by
    simpa [requiredFiles] using hr
  rcases hnames with h | h <;> rw [Entry.skipped, h] <;> rfl

theorem missingRequired_none (h : missingRequired es = none) {required : Text}
    (hr : required ∈ requiredFiles) : ∃ e ∈ es, e.name = required := by
  have := List.find?_eq_none.mp h required hr
  simpa using this

/-- What is asked of a loop that comes to its end. -/
theorem complete_iff (dest : Path) (hn : (es.map Entry.name).Nodup) (hreq : missingRequired es = none) :
    ((∀ q b, StrictlyInside dest q → (holding dest es q = some b ↔
        ∃ e ∈ es, e.skipped = false ∧ q = dest ++ [e.name] ∧ b = e.content)) ∧
      ∀ required ∈ requiredFiles, ∃ e ∈ es, e.name = required ∧
        holding dest es (dest ++ [required]) = some e.content) ↔
    (∀ e ∈ es, e.skipped = false → e.content.length ≤ maxWalletFileBytes) ∧
      ∀ e ∈ es, e.name ∈ requiredFiles → e.size ≤ maxWalletFileBytes := by
  constructor
  · intro h
    constructor
    · intro e he hskip
      have hfile := (h.1 _ e.content (below_entry dest e.name)).mpr ⟨e, he, hskip, rfl, rfl⟩
      obtain ⟨x, hx, -, hq, hb⟩ := (holding_some_iff hn).mp hfile
      have hname := singleton_inj.mp (append_cancel_left hq)
      obtain rfl : x = e := inj_on_of_nodup_map hn hx he hname.symm
      rw [hb]
      exact length_take_le _ _
    · intro e he hr
      obtain ⟨x, -, -, hfile⟩ := h.2 e.name hr
      obtain ⟨y, hy, hskip, hq, -⟩ := (holding_some_iff hn).mp hfile
      have hname := singleton_inj.mp (append_cancel_left hq)
      obtain rfl : y = e := inj_on_of_nodup_map hn hy he hname.symm
      rw [required_plain hr, decide_eq_false_iff_not, Nat.not_lt] at hskip
      exact hskip
  · intro h
    constructor
    · intro q b hq
      rw [holding_some_iff hn]
      refine exists_congr fun e => and_congr_right fun he => and_congr_right fun hskip => ?_
      rw [take_of_length_le (h.1 e he hskip)]
    · intro required hr
      obtain ⟨e, he, rfl⟩ := missingRequired_none hreq hr
      have hskip : e.skipped = false := by
        rw [required_plain hr, decide_eq_false_iff_not, Nat.not_lt]
        exact h.2 e he hr
      refine ⟨e, he, rfl, (holding_some_iff hn).mpr ⟨e, he, hskip, rfl, ?_⟩⟩
      rw [take_of_length_le (h.1 e he hskip)]

theorem written_outside {s : Option (Archive × Entry × EntryFault)} {q : Path}
    (hq : ¬ StrictlyInside dest q) : written dest es s q = none := by
  have hne : ∀ name, q ≠ dest ++ [name] := fun name h => hq (h ▸ below_entry dest name)
  have hold : ∀ es : Archive, holding dest es q = none := by
    intro es
    rw [holding, Option.map_eq_none_iff, List.find?_eq_none]
    intro e _ h
    rw [Bool.and_eq_true, decide_eq_true_eq] at h
    exact hne _ h.2
  cases s with
  | none => exact hold es
  | some s =>
    obtain ⟨front, e, k⟩ := s
    simp only [written, part_ne (hne _), hold, Option.or_none]

theorem or_emptied_inside {f : Path → Option Bytes} {q : Path} (hq : StrictlyInside dest q) :
    (f q).or (emptied dest disk.file q) = f q := by
  rw [emptied_below _ hq, Option.or_none]

/-- An error that came before anything was touched. -/
theorem meets_of_untouched {archive : Except WalletError Archive} {error : WalletError}
    (h : extractDisk p dest archive faults disk = (disk, some error)) :
    Meets p dest faults disk archive := by
  refine ⟨fun q _ => by rw [h], fun hs => ?_, fun _ => by rw [h]⟩
  rw [h] at hs
  cases hs

/-- An error after the disk was touched: the extraction is as it should be only if the disk is as
    before. -/
theorem meets_failed {archive : Except WalletError Archive} {error : WalletError}
    {disk' : Disk dest} (h : extractDisk p dest archive faults disk = (disk', some error))
    (hout : ∀ q, ¬ StrictlyInside dest q → disk'.file q = disk.file q) :
    Meets p dest faults disk archive ↔ disk'.isDir = disk.isDir ∧
      ∀ q, StrictlyInside dest q → disk'.file q = disk.file q := by
  constructor
  · intro hm
    have e := hm.failure (by rw [h]; exact nofun)
    rw [h] at e
    exact ⟨congrArg Disk.isDir e, fun q _ => congrFun (congrArg Disk.file e) q⟩
  · intro hd
    have e : disk' = disk := by
      refine Disk.ext hd.1 (funext fun q => ?_)
      by_cases hq : StrictlyInside dest q
      · exact hd.2 q hq
      · exact hout q hq
    exact meets_of_untouched (by rw [h, e])

theorem meets_iff_spared (hn : (es.map Entry.name).Nodup) (hreq : missingRequired es = none) :
    Meets p dest faults disk (.ok es) ↔ Spared dest faults disk es := by
  rw [Spared]
  cases hrem : faults.removal.filter fun _ => disk.isDir with
  | some r =>
    obtain ⟨error, left⟩ := r
    have hdir : disk.isDir = true := (Option.filter_eq_some_iff.mp hrem).2
    have hrun : extractDisk p dest (.ok es) faults disk =
        ({ isDir := true
           file := fun q => if StrictlyInside dest q then left q else disk.file q
           none_below := nofun }, some (.io error)) := by
      simp only [extractDisk, hreq, hrem]
    rw [meets_failed hrun fun q hq => if_neg hq]
    simp only [hdir, true_and]
    refine forall_congr' fun q => forall_congr' fun hq => ?_
    rw [if_pos hq]
  | none =>
    cases hcre : faults.creation with
    | some error =>
      have hrun : extractDisk p dest (.ok es) faults disk =
          ({ isDir := false
             file := emptied dest disk.file
             none_below := fun _ _ h => emptied_below _ h }, some (.io error)) := by
        simp only [extractDisk, hreq, hrem, hcre]
      rw [meets_failed hrun fun q hq => if_neg hq]
      constructor
      · exact fun h => h.1.symm
      · intro h
        exact ⟨h.symm, fun q hq => (emptied_below _ hq).trans (disk.none_below h q hq).symm⟩
    | none =>
      have hrun : extractDisk p dest (.ok es) faults disk =
          ({ isDir := true
             file := fun q => (written dest es (stopsAt faults.entry 0 es) q).or
               (emptied dest disk.file q)
             none_below := nofun }, (stopsAt faults.entry 0 es).map fun s => s.2.2.error) := by
        simp only [extractDisk, hreq, hrem, hcre, writeFiles_eq p dest faults.entry es hn]
      have hout : ∀ q, ¬ StrictlyInside dest q →
          (written dest es (stopsAt faults.entry 0 es) q).or (emptied dest disk.file q) =
            disk.file q := by
        intro q hq
        rw [written_outside hq, Option.none_or, emptied, if_neg hq]
      cases hstop : stopsAt faults.entry 0 es with
      | some s =>
        rw [hstop] at hrun hout
        rw [meets_failed hrun hout]
        refine and_congr eq_comm (forall_congr' fun q => forall_congr' fun hq => ?_)
        show (written dest es (some s) q).or _ = _ ↔ _
        rw [or_emptied_inside hq, eq_comm]
      | none =>
        rw [hstop] at hrun hout
        rw [← complete_iff dest hn hreq]
        constructor
        · intro hm
          obtain ⟨es', he, -, hfile, hall⟩ := hm.success (by rw [hrun]; rfl)
          obtain rfl := Except.ok.inj he
          rw [hrun] at hfile hall
          refine ⟨fun q b hq => ?_, fun required hr => ?_⟩
          · rw [← hfile q b hq]
            show _ ↔ (holding dest es q).or _ = some b
            rw [or_emptied_inside hq]
          · obtain ⟨e, he, hname, hf⟩ := hall required hr
            have hf : (holding dest es (dest ++ [required])).or _ = some e.content := hf
            rw [or_emptied_inside (below_entry dest required)] at hf
            exact ⟨e, he, hname, hf⟩
        · intro h
          refine ⟨fun q hq => by rw [hrun]; exact hout q hq, fun _ => ?_, fun hne => ?_⟩
          · rw [hrun]
            refine ⟨es, rfl, rfl, fun q b hq => ?_, fun required hr => ?_⟩
            · rw [← h.1 q b hq]
              show (holding dest es q).or _ = some b ↔ _
              rw [or_emptied_inside hq]
            · obtain ⟨e, he, hname, hf⟩ := h.2 required hr
              refine ⟨e, he, hname, ?_⟩
              show (holding dest es (dest ++ [required])).or _ = some e.content
              rw [or_emptied_inside (below_entry dest required), hf]
          · rw [hrun] at hne
            exact absurd rfl hne

/-- **Exactly when an extraction does what is asked of it**: the zip cannot be opened or lacks a
    required name; nothing fails, both required entries keep to the limit and no accepted entry holds
    more than it; or what fails leaves the destination as it was. -/
theorem extract_meets_iff (p : Platform) (dest : Path) (archive : Except WalletError Archive)
    (faults : DiskFaults) (disk : Disk dest)
    (hn : ∀ es, archive = .ok es → (es.map Entry.name).Nodup) :
    Meets p dest faults disk archive ↔
      ∀ es, archive = .ok es → missingRequired es = none → Spared dest faults disk es := by
  cases archive with
  | error e =>
    exact iff_of_true (meets_of_untouched rfl) nofun
  | ok es =>
    cases hreq : missingRequired es with
    | some required =>
      have hstopped : extractDisk p dest (.ok es) faults disk =
          (disk, some (.missingFile required)) := by simp only [extractDisk, hreq]
      refine iff_of_true (meets_of_untouched hstopped) fun es' he h => ?_
      obtain rfl := Except.ok.inj he
      rw [hreq] at h
      cases h
    | none =>
      rw [meets_iff_spared (hn es rfl) hreq]
      constructor
      · intro h es' he _
        obtain rfl := Except.ok.inj he
        exact h
      · exact fun h => h es rfl hreq

end

/-! ## 8. Two wallets -/

/-- A disk without files. -/
def bareDisk (dest : Path) : Disk dest := ⟨true, fun _ => none, nofun⟩

def smallWallet : Archive :=
  [⟨tnsnamesOra, 1, [97]⟩, ⟨"../evil".toList, 1, [98]⟩, ⟨"cwallet.sso".toList, 2, [99, 100]⟩]

theorem extract_meets_small :
    Meets .posix [['w']] {} (bareDisk [['w']]) (.ok smallWallet) := by
  refine (extract_meets_iff .posix [['w']] (.ok smallWallet) {} (bareDisk [['w']]) ?_).mpr ?_
  · intro es h
    obtain rfl := Except.ok.inj h
    decide
  · intro es h _
    obtain rfl := Except.ok.inj h
    exact ⟨by decide, by decide⟩

/-- A wallet whose `cwallet.sso` is one byte above the limit. -/
def oversizedWallet : Archive :=
  [⟨tnsnamesOra, 1, [97]⟩,
    ⟨"cwallet.sso".toList, maxWalletFileBytes + 1, List.replicate (maxWalletFileBytes + 1) 0⟩]

/-- **A success without the wallet**: the file is left out, and the old directory is gone. -/
theorem extract_oversized :
    (oversizedWallet.map Entry.name).Nodup ∧
      (extractDisk .posix [['w']] (.ok oversizedWallet) {} (bareDisk [['w']])).2 = none ∧
      (extractDisk .posix [['w']] (.ok oversizedWallet) {} (bareDisk [['w']])).1.file
        [['w'], "cwallet.sso".toList] = none ∧
      ¬ Meets .posix [['w']] {} (bareDisk [['w']]) (.ok oversizedWallet) := by
  have hn : (oversizedWallet.map Entry.name).Nodup := by decide
  have hreq : missingRequired oversizedWallet = none := by decide
  refine ⟨hn, rfl, rfl, fun hm => ?_⟩
  obtain ⟨-, h⟩ := (meets_iff_spared hn hreq).mp hm
  have := h _ (mem_cons_of_mem _ mem_cons_self) (by decide)
  exact absurd this (Nat.not_succ_le_self _)

end Veesker.Host
