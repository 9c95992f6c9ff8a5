import PicoOs.Kernel.FileSystem.DirectoryHandles
import PicoOs.Proofs.FileBoot
import PicoOs.Proofs.HashIterators

/-! What a directory handle lists while names are being set. What has been passed is never
changed, so that the names behind the iterator have all been read, and those that were there
from the start are among them. -/

namespace PicoOs.Kernel
open Library PicoOs.Std

namespace Listing
variable {listing after : Listing} {maps : SetId → HashMap ImmutableString FileRef}
  {directory : SetId} {ino : FileRef → UInt32}
  {position : Option ImmutableString}

def less (first second : ImmutableString) : Bool :=
  (HashKey.order ImmutableString).less first second

private theorem less_irrefl (name : ImmutableString) : less name name = false :=
  HashKey.order_strict.irrefl name

private theorem less_trans {first second third : ImmutableString} (low : less first second)
    (high : less second third) : less first third :=
  HashKey.order_strict.trans low high

private theorem less_total (first second : ImmutableString) :
    less first second ∨ first = second ∨ less second first := by
  by_cases low : less first second
  · exact .inl low
  · by_cases high : less second first
    · exact .inr (.inr high)
    · refine .inr (.inl (HashKey.equivalent_iff.mp (HashKey.order_strict.equivalent_iff.mpr ⟨?_, ?_⟩)))
      · exact Bool.eq_false_iff.mpr low
      · exact Bool.eq_false_iff.mpr high

theorem read_end (ino : FileRef → UInt32) (ended : listing.iterator = none) :
    listing.read ino directoryInfoSize = .ok (none, none) := by
  rw [read, ended]
  rfl

theorem read_entry {key : ImmutableString} (ino : FileRef → UInt32)
    (tracks : listing.entries.Tracks maps directory listing.iterator (some key))
    (short : key.length < directoryNameSize) :
    ∃ file next, (maps directory).getOpt key = some file ∧
    listing.read ino directoryInfoSize = .ok (some ⟨ino file, key⟩, next) ∧
      listing.entries.Tracks maps directory next ((maps directory).advance key) := by
  cases iterator : listing.iterator with
  | none =>
    rw [iterator] at tracks
    obtain ⟨_, _, _, _, absent⟩ := tracks.represented
    cases absent
  | some ref =>
    rw [iterator] at tracks
    obtain ⟨file, contents, next, there, loaded, value, advanced, further⟩ := tracks.advance
    refine ⟨file, next, there, ?_, further⟩
    have copied : strcpyTo key directoryNameSize = .ok key := by
      rw [strcpyTo, require_ok.mpr (Nat.succ_le_of_lt short)]
      rfl
    have named : contents.value.value.key = key := congrArg (fun node => node.value.key) value
    have filed : contents.value.value.value = some file :=
      congrArg (fun node => node.value.value) value
    simp only [read, iterator, advanced, loaded, named, filed, copied, require, must, if_true,
      Except.mapError, bind, Except.bind]

/-- What holds of a handle on a directory that had the entries of `start` when it was created. -/
structure Going (start : HashMap ImmutableString FileRef) (ino : FileRef → UInt32)
    (directory : SetId) (listing : Listing)
    (maps : SetId → HashMap ImmutableString FileRef) (position : Option ImmutableString)
    (records : List UserlandDirectoryInfo)
    (zeros : Nat) : Prop where
  tracks : listing.entries.Tracks maps directory listing.iterator position
  received : listing.received = records.map some ++ List.replicate zeros none
  short : ∀ name, ((maps directory).getOpt name).isSome → name.length < directoryNameSize
  kept : ∀ name, (start.getOpt name).isSome → ((maps directory).getOpt name).isSome
  ordered : (records.map UserlandDirectoryInfo.name).Pairwise fun first second => less first second
  listed : ∀ record ∈ records, ((maps directory).getOpt record.name).isSome
  ahead : ∀ key, position = some key → ((maps directory).getOpt key).isSome ∧ zeros = 0 ∧
    (∀ record ∈ records, less record.name key) ∧
    ∀ name, (start.getOpt name).isSome → less name key →
      name ∈ records.map UserlandDirectoryInfo.name
  ended : position = none → ∀ name, (start.getOpt name).isSome →
    name ∈ records.map UserlandDirectoryInfo.name

variable {start : HashMap ImmutableString FileRef} {records : List UserlandDirectoryInfo}
  {zeros : Nat}

private theorem Going.set (going : Going start ino directory listing maps position records zeros)
    {other : SetId} {name : ImmutableString}
    {file : FileRef} (fits : other = directory → name.length < directoryNameSize)
    (executed : listing.execute ino (.set other name file) = .ok after) :
    Going start ino directory after (Function.update maps other ((maps other).set name file))
      position records zeros := by
  obtain ⟨entries, set, tracks⟩ := going.tracks.set other name file
  rw [execute, set] at executed
  cases Except.ok.inj executed
  have grows (key : ImmutableString) (present : ((maps directory).getOpt key).isSome) :
      ((Function.update maps other ((maps other).set name file) directory).getOpt key).isSome := by
    rw [Function.update_apply]
    split
    next same => exact HashMap.getOpt_set_isSome name file (same ▸ present)
    next => exact present
  refine ⟨tracks, going.received, fun key present => ?_,
    fun key present => grows key (going.kept key present), going.ordered,
    fun record member => grows _ (going.listed record member), fun key here => ?_, going.ended⟩
  · rw [Function.update_apply] at present
    split at present
    next same =>
      obtain ⟨value, there⟩ := Option.isSome_iff_exists.mp present
      obtain ⟨rfl, _⟩ | ⟨_, before⟩ := HashMap.getOpt_set_cases there
      · exact fits same.symm
      · exact going.short key (Option.isSome_of_eq_some (same ▸ before))
    next => exact going.short key present
  · obtain ⟨present, rest⟩ := going.ahead key here
    exact ⟨grows key present, rest⟩

private theorem Going.readEnd (going : Going start ino directory listing maps none records zeros)
    (executed : listing.execute ino (.read directoryInfoSize) = .ok after) :
    Going start ino directory after maps none records (zeros + 1) := by
  have ended : listing.iterator = none := by
    obtain ⟨_, _, _, _, here⟩ := going.tracks.represented
    cases iterator : listing.iterator with
    | none => rfl
    | some ref =>
      rw [iterator] at here
      cases here
  rw [execute, read_end ino ended] at executed
  cases Except.ok.inj executed
  refine ⟨ended ▸ going.tracks, ?_, going.short, going.kept, going.ordered, going.listed,
    nofun, going.ended⟩
  rw [going.received, List.append_assoc, List.replicate_succ']

/-- A read returns the entry at the position, and the next one is the least of those behind it. -/
theorem Going.readEntry {key : ImmutableString}
    (going : Going start ino directory listing maps (some key) records zeros)
    (executed : listing.execute ino (.read directoryInfoSize) = .ok after) :
    ∃ file, (maps directory).getOpt key = some file ∧
      Going start ino directory after maps ((maps directory).advance key) (records ++
        [⟨ino file, key⟩]) 0 := by
  obtain ⟨present, rfl, passed, behind⟩ := going.ahead key rfl
  obtain ⟨file, next, there, done, tracks⟩ := read_entry ino going.tracks (going.short key present)
  rw [execute, done] at executed
  cases Except.ok.inj executed
  have ascending := going.tracks.lists.ascending directory
  let record : UserlandDirectoryInfo := ⟨ino file, key⟩
  have names : (records ++ [record]).map UserlandDirectoryInfo.name =
    records.map UserlandDirectoryInfo.name ++ [key] := by
    rw [List.map_append]
    rfl
  have upTo (name : ImmutableString) (old : (start.getOpt name).isSome)
    (notBehind : less key name = false) :
      name ∈ (records ++ [record]).map UserlandDirectoryInfo.name := by
    rw [names, List.mem_append, List.mem_singleton]
    rcases less_total name key with low | same | high
    · exact .inl (behind name old low)
    · exact .inr same
    · rw [notBehind] at high
      cases high
  refine ⟨file, there, tracks, ?_, going.short, going.kept, ?_, ?_, fun later here => ?_,
    fun none name old => ?_⟩
  · rw [going.received, List.replicate_zero, List.append_nil, List.append_nil, List.map_append]
    rfl
  · rw [names, List.pairwise_append]
    refine ⟨going.ordered, List.pairwise_singleton _ _, fun name member last isLast => ?_⟩
    obtain ⟨record, inRecords, rfl⟩ := List.mem_map.mp member
    rw [List.mem_singleton.mp isLast]
    exact passed record inRecords
  · intro record member
    rcases List.mem_append.mp member with before | last
    · exact going.listed record before
    · rw [List.mem_singleton.mp last]
      exact present
  · obtain ⟨further, least⟩ := ascending.advance_some here
    refine ⟨HashMap.advance_present here, rfl, fun record member => ?_,
      fun name old low => upTo name old ?_⟩
    · rcases List.mem_append.mp member with before | last
      · exact less_trans (passed record before) further
      · rw [List.mem_singleton.mp last]
        exact further
    · rw [Bool.eq_false_iff]
      intro high
      have notLess := least name (going.kept name old) high
      rw [less, notLess] at low
      cases low
  · exact upTo name old (HashMap.advance_none none (going.kept name old))

/-- What has been read is a list of entries, each of them as it was in the directory when it was
read. -/
structure Carried (ino : FileRef → UInt32) (directory : SetId)
    (history : List (Listing × ListingEvent)) (record : UserlandDirectoryInfo) : Prop where
  read : ∃ entry ∈ history, (∃ next, entry.1.read ino directoryInfoSize = .ok (some record, next)) ∧
    ∃ file, entry.1.entries.getOpt directory record.name = .ok (some file) ∧ record.ino = ino file

private theorem Carried.later {history : List (Listing × ListingEvent)}
    {record : UserlandDirectoryInfo} (carried : Carried ino directory history record)
    (last : Listing × ListingEvent) : Carried ino directory (history ++ [last]) record := by
  obtain ⟨entry, member, facts⟩ := carried.read
  exact ⟨entry, List.mem_append_left _ member, facts⟩

private theorem going_run {initial : Listing} {history : List (Listing × ListingEvent)}
    (began : ∃ maps position, Going start ino directory initial maps position [] 0)
    (run : (machine directory ino).Run initial history listing) :
    ∃ maps position records zeros, Going start ino directory listing maps position records zeros ∧
      ∀ record ∈ records, Carried ino directory history record := by
  refine run.induct (fun history listing => ∃ maps position records zeros,
    Going start ino directory listing maps position records zeros ∧
    ∀ record ∈ records, Carried ino directory history record) ?_ ?_
  · obtain ⟨maps, position, going⟩ := began
    exact ⟨maps, position, [], 0, going, nofun⟩
  · rintro history state event next _ ⟨maps, position, records, zeros, going, carried⟩
      permitted executed
    have later : ∀ record ∈ records, Carried ino directory (history ++ [(state, event)]) record :=
      fun record member => (carried record member).later _
    cases event with
    | set other name file =>
        exact ⟨_, position, records, zeros, going.set permitted executed, later⟩
    | read count =>
      obtain rfl : count = directoryInfoSize := permitted
      cases position with
      | none => exact ⟨maps, none, records, zeros + 1, going.readEnd executed, later⟩
      | some key =>
        obtain ⟨present, _⟩ := going.ahead key rfl
        obtain ⟨value, _, found, done, _⟩ := read_entry ino going.tracks (going.short key present)
        obtain ⟨file, there, further⟩ := going.readEntry executed
        obtain rfl : value = file := Option.some.inj (found.symm.trans there)
        refine ⟨maps, _, _, 0, further, fun record member => ?_⟩
        rcases List.mem_append.mp member with before | last
        · exact later record before
        · obtain rfl := List.mem_singleton.mp last
          refine ⟨(state, .read directoryInfoSize),
            List.mem_append_right _ (List.mem_singleton_self _), ⟨_, done⟩, value, ?_, rfl⟩
          rw [going.tracks.lists.getOpt, there]

/-- What is promised of a listing: no read fails, the records come in ascending order with the
name and the number of an entry, there are no more of them than entries, nothing comes behind the
first empty result, and then every entry that was there from the start has come once. -/
structure Complete (entries : HashMaps ImmutableString FileRef) (directory : SetId)
    (ino : FileRef → UInt32)
    (history : List (Listing × ListingEvent)) (listing : Listing) : Prop where
  reads : ∃ result, listing.read ino directoryInfoSize = .ok result
  received : ∃ (records : List UserlandDirectoryInfo) (zeros : Nat), listing.received =
    records.map some ++ List.replicate zeros none ∧
    (records.map UserlandDirectoryInfo.name).Pairwise (fun first second => less first second) ∧
    records.length ≤ listing.entries.size directory ∧
      (∀ record ∈ records, Carried ino directory history record) ∧
    (0 < zeros → ∀ name file, entries.getOpt directory name = .ok (some file) →
      (records.map UserlandDirectoryInfo.name).count name = 1)

private theorem Going.nodup (going : Going start ino directory listing maps position records zeros) :
    (records.map UserlandDirectoryInfo.name).Nodup := by
  refine List.Pairwise.imp (fun {first second} low same => ?_) going.ordered
  rw [same, less_irrefl] at low
  cases low

private theorem Going.complete {entries : HashMaps ImmutableString FileRef}
    {history : List (Listing × ListingEvent)}
    (going : Going start ino directory listing maps position records zeros)
    (carried : ∀ record ∈ records, Carried ino directory history record)
    (began : ∀ name, entries.getOpt directory name = .ok (start.getOpt name)) :
    Complete entries directory ino history listing := by
  refine ⟨?_, records, zeros, going.received, going.ordered, ?_, carried,
    fun empty name file there => ?_⟩
  · cases position with
    | none =>
      have ended : listing.iterator = none := by
        obtain ⟨_, _, _, _, here⟩ := going.tracks.represented
        cases iterator : listing.iterator with
        | none => rfl
        | some ref =>
          rw [iterator] at here
          cases here
      exact ⟨_, read_end ino ended⟩
    | some key =>
      obtain ⟨_, _, _, done, _⟩ :=
        read_entry ino going.tracks (going.short key (going.ahead key rfl).1)
      exact ⟨_, done⟩
  · have inside : records.map UserlandDirectoryInfo.name ⊆
      (maps directory).entries.map Prod.fst := by
      intro name member
      obtain ⟨record, inRecords, rfl⟩ := List.mem_map.mp member
      exact HashMap.present_iff.mp (going.listed record inRecords)
    have fewer := (List.subperm_of_subset going.nodup inside).length_le
    rw [List.length_map, List.length_map, ← going.tracks.lists.size directory] at fewer
    exact fewer
  · have old : (start.getOpt name).isSome := by
      rw [began, Except.ok.injEq] at there
      rw [there]
      rfl
    cases position with
    | none => exact List.count_eq_one_of_mem going.nodup (going.ended rfl name old)
    | some key => exact absurd (going.ahead key rfl).2.1 (Nat.ne_of_gt empty)

end Listing

open Listing

/-- Directories that have only been filled have right parents, and no name that is too long. -/
theorem filling_tracks {directory : SetId} {entries : HashMaps ImmutableString FileRef}
    {history : List (HashMaps ImmutableString FileRef × MapEvent ImmutableString FileRef)}
    (run : (filling directory).Run .initial history entries) :
    ∃ maps : SetId → HashMap ImmutableString FileRef,
      entries.Tracks maps directory none none ∧
        ∀ name, ((maps directory).getOpt name).isSome → name.length < directoryNameSize := by
  refine run.induct (fun _ entries => ∃ maps : SetId → HashMap ImmutableString FileRef,
    entries.Tracks maps directory none none ∧
    ∀ name, ((maps directory).getOpt name).isSome → name.length < directoryNameSize) ?_ ?_
  · exact ⟨fun _ => .empty, ⟨fun _ => .nil, .initial, fun _ => trivial, fun _ => rfl,
      trivial⟩, nofun⟩
  · rintro history state event next _ ⟨maps, tracks, short⟩ permitted executed
    have fills : Fills directory event := permitted.2
    cases event with
    | set other name file =>
      obtain ⟨after, set, further⟩ := tracks.set other name file
      obtain rfl : after = next := Except.ok.inj (set.symm.trans executed)
      refine ⟨_, further, fun key present => ?_⟩
      rw [Function.update_apply] at present
      split at present
      next same =>
        obtain ⟨value, there⟩ := Option.isSome_iff_exists.mp present
        obtain ⟨rfl, _⟩ | ⟨_, before⟩ := HashMap.getOpt_set_cases there
        · exact fills same.symm
        · exact short key (Option.isSome_of_eq_some (same ▸ before))
      next => exact short key present
    | remove other name | clear other => cases fills

/-- However a listing and the creation of files follow each other, the listing is complete. -/
theorem listing_complete {directory : SetId} (ino : FileRef → UInt32)
    {entries : HashMaps ImmutableString FileRef}
    {earlier : List (HashMaps ImmutableString FileRef × MapEvent ImmutableString FileRef)}
    {initial listing : Listing}
    {history : List (Listing × ListingEvent)}
    (filled : (filling directory).Run .initial earlier entries)
    (created : Listing.create entries directory = .ok initial)
    (run : (machine directory ino).Run initial history listing) :
    Complete entries directory ino history listing := by
  obtain ⟨maps, tracks, short⟩ := filling_tracks filled
  have lists := tracks.lists
  obtain ⟨trees, represents, parents, values, _⟩ := tracks.represented
  obtain ⟨iterator, begins, started⟩ := HashMaps.Tracks.start represents parents values directory
  have same : initial = ⟨entries, iterator, []⟩ := by
    rw [Listing.create, begins] at created
    exact (Except.ok.inj created).symm
  subst same
  have going : Going (maps directory) ino directory ⟨entries, iterator, []⟩ maps
    (maps directory).iter [] 0 := by
    refine ⟨started, rfl, short, fun _ => id, .nil, nofun, fun key first => ?_,
      fun empty name present => ?_⟩
    · refine ⟨HashMap.iter_present first, rfl, nofun, fun name present low => ?_⟩
      have least := (lists.ascending directory).iter_some first present
      rw [less, least] at low
      cases low
    · rw [HashMap.iter_none empty] at present
      cases present
  obtain ⟨later, position, records, zeros, further, carried⟩ := going_run ⟨maps, _, going⟩ run
  exact further.complete carried fun name => lists.getOpt directory name

/-- A name that is set between the two entries of a new directory is listed as well. -/
theorem listing_complete_three : ∃ entries earlier initial history listing,
    (filling 0).Run .initial earlier entries ∧ Listing.create entries 0 = .ok initial ∧
      (machine 0 UInt32.ofNat).Run initial history listing ∧
      listing.received = [some ⟨7, dot⟩, some ⟨8, literal "a"⟩, some ⟨7, dotdot⟩, none] ∧ Complete entries 0 UInt32.ofNat history listing := by
  have played : (((filling 0).after .initial [.set 0 dot 7, .set 0 dotdot 7]).bind fun entries =>
      (Listing.create entries 0).toOption.bind fun initial =>
        ((machine 0 UInt32.ofNat).after initial [.set 0 (literal "a") 8, .read 256, .read 256, .read 256, .read 256]).map received) =
      some [some ⟨7, dot⟩, some ⟨8, literal "a"⟩, some ⟨7, dotdot⟩, none] := by decide +kernel
  obtain ⟨entries, filled, rest⟩ := Option.bind_eq_some_iff.mp played
  obtain ⟨initial, made, rest⟩ := Option.bind_eq_some_iff.mp rest
  obtain ⟨listing, ran, result⟩ := Option.map_eq_some_iff.mp rest
  obtain ⟨earlier, fills⟩ := Machine.reachable_after filled
  obtain ⟨history, run⟩ := Machine.reachable_after ran
  have created := toOption_some.mp made
  exact ⟨entries, earlier, initial, history, listing, fills, created, run, result,
    listing_complete UInt32.ofNat fills created run⟩

end PicoOs.Kernel
