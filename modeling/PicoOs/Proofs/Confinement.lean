import PicoOs.Kernel.Loader
import PicoOs.Library.Outcome
import PicoOs.Proofs.PageExhaustion
import PicoOs.Proofs.VectorStorage

/-! What the loader leaves behind. The file bytes are copied before their number is compared
with the size in memory, and the addresses of the sections are not compared with anything. -/

namespace PicoOs.Kernel
open Library

section
variable {condition : Bool} {elf : ElfWrapper} {offset : Nat} {α : Type}
  {next : Unit → Except LoaderFault α} {value : α}

theorem verify_ok : (verify condition >>= next) = .ok value ↔
    condition = true ∧ next () = .ok value := by
  cases condition with
  | false => exact ⟨nofun, fun ⟨impossible, _⟩ => absurd impossible (by decide)⟩
  | true => exact ⟨fun done => ⟨rfl, done⟩, fun ⟨_, done⟩ => done⟩

theorem access_ok : (elf.access offset >>= next) = .ok value ↔
    wrap (elf.base + offset) % 4 = 0 ∧ next () = .ok value := by
  unfold ElfWrapper.access
  split
  next aligned => exact ⟨fun done => ⟨aligned, done⟩, fun ⟨_, done⟩ => done⟩
  next misaligned => exact ⟨nofun, fun ⟨aligned, _⟩ => absurd aligned misaligned⟩

end

namespace ElfWrapper
variable (elf : ElfWrapper)

def visited : List Elf.Shdr := (List.range' 1 (elf.header.shnum.toNat - 1)).map elf.sections

def lastOf (kind : SectionKind) : Option Elf.Shdr :=
  elf.visited.reverse.find? fun shdr => elf.kindOf shdr = some kind

end ElfWrapper

namespace LoadedExecutable

def baseOf (executable : LoadedExecutable) : SectionKind → Nat
  | .stack => executable.stackBase
  | .data => executable.dataBase
  | .bss => executable.bssBase
  | .text => executable.textBase

section
variable (executable : LoadedExecutable) (base size : Nat) (kind : SectionKind)

private theorem baseOf_stack :
    ({ executable with stackBase := base, stackSize := size } : LoadedExecutable).baseOf kind =
    if kind = .stack then base else executable.baseOf kind := by
  cases kind <;> rfl

private theorem baseOf_data : ({ executable with dataBase := base } : LoadedExecutable).baseOf kind =
    if kind = .data then base else executable.baseOf kind := by
  cases kind <;> rfl

private theorem baseOf_bss : ({ executable with bssBase := base } : LoadedExecutable).baseOf kind =
    if kind = .bss then base else executable.baseOf kind := by
  cases kind <;> rfl

private theorem baseOf_text : ({ executable with textBase := base } : LoadedExecutable).baseOf kind =
    if kind = .text then base else executable.baseOf kind := by
  cases kind <;> rfl

end
end LoadedExecutable

section Sections
variable (elf : ElfWrapper) (readonlySegment writableSegment : Elf.Phdr)

def placeOf (executable : LoadedExecutable) (shdr : Elf.Shdr) : SectionKind → Nat
  | .text => wrap (executable.readonlyBase + minus shdr.addr.toNat readonlySegment.vaddr.toNat)
  | _ => wrap (executable.writableBase + minus shdr.addr.toNat writableSegment.vaddr.toNat)

structure Keeps (before after : LoadedExecutable) : Prop where
  entry : after.entry = before.entry
  readonlyBase : after.readonlyBase = before.readonlyBase
  readonlySize : after.readonlySize = before.readonlySize
  writableBase : after.writableBase = before.writableBase
  writableSize : after.writableSize = before.writableSize

theorem Keeps.refl (executable : LoadedExecutable) : Keeps executable executable :=
  ⟨rfl, rfl, rfl, rfl, rfl⟩

private theorem Keeps.trans {before middle after : LoadedExecutable} (first : Keeps before middle)
    (last : Keeps middle after) :
    Keeps before after where
  entry := last.entry.trans first.entry
  readonlyBase := last.readonlyBase.trans first.readonlyBase
  readonlySize := last.readonlySize.trans first.readonlySize
  writableBase := last.writableBase.trans first.writableBase
  writableSize := last.writableSize.trans first.writableSize

structure Located (shdrs : List Elf.Shdr) (before after : LoadedExecutable) : Prop where
  keeps : Keeps before after
  base : ∀ kind, after.baseOf kind = ((shdrs.reverse.find? fun shdr => elf.kindOf shdr = some kind).map fun shdr =>
    placeOf readonlySegment writableSegment before shdr kind).getD (before.baseOf kind)
  size : after.stackSize = 0x1100 ∨ (∀ shdr ∈ shdrs, elf.kindOf shdr ≠ some .stack) ∧
    after.stackSize = before.stackSize

variable {elf readonlySegment writableSegment} {executable final : LoadedExecutable}
  {shdr : Elf.Shdr} {shdrs : List Elf.Shdr}

private theorem Keeps.place (keeps : Keeps executable final) (shdr : Elf.Shdr)
    (kind : SectionKind) :
    placeOf readonlySegment writableSegment final shdr kind =
      placeOf readonlySegment writableSegment executable shdr kind := by
  cases kind <;> simp only [placeOf, keeps.readonlyBase, keeps.writableBase]

private theorem Located.refl :
    Located elf readonlySegment writableSegment [] executable executable where
  keeps := .refl executable
  base _ := rfl
  size := .inr ⟨nofun, rfl⟩

private theorem Located.trans {middle : LoadedExecutable} {more : List Elf.Shdr}
    (first : Located elf readonlySegment writableSegment shdrs executable middle)
    (last : Located elf readonlySegment writableSegment more middle final) :
    Located elf readonlySegment writableSegment (shdrs ++ more) executable final where
  keeps := first.keeps.trans last.keeps
  base kind := by
    rw [last.base kind, first.base kind, List.reverse_append, List.find?_append]
    cases more.reverse.find? fun shdr => elf.kindOf shdr = some kind with
    | none => rfl
    | some shdr => exact first.keeps.place shdr kind
  size := by
    rcases last.size with size | ⟨absent, same⟩
    · exact .inl size
    rcases first.size with size | ⟨without, still⟩
    · exact .inl (same.trans size)
    · refine .inr ⟨?_, same.trans still⟩
      intro shdr member
      rcases List.mem_append.mp member with earlier | later
      · exact without shdr earlier
      · exact absent shdr later

theorem loadSection_eq (executable : LoadedExecutable) (shdr : Elf.Shdr) :
    loadSection elf readonlySegment writableSegment executable shdr =
      let place := placeOf readonlySegment writableSegment executable shdr
      match elf.kindOf shdr with
      | some .stack =>
        if shdr.size = 0x1100 then
          .ok { executable with stackBase := place .stack, stackSize := shdr.size.toNat }
        else .error .assert
      | some .data => .ok { executable with dataBase := place .data }
      | some .bss => .ok { executable with bssBase := place .bss }
      | some .text => .ok { executable with textBase := place .text }
      | none => .ok executable := rfl

private theorem loadSection_returns :
    Returns (loadSection elf readonlySegment writableSegment executable shdr) ↔
      (elf.kindOf shdr = some .stack → shdr.size = 0x1100) := by
  unfold loadSection
  cases elf.kindOf shdr with
  | none => exact ⟨fun _ => nofun, fun _ => .ok _⟩
  | some kind =>
    cases kind with
    | stack =>
      by_cases size : shdr.size = 0x1100
      · simp only [size, if_true]
        exact ⟨fun _ _ => trivial, fun _ => .ok _⟩
      · simp only [size, if_false]
        exact ⟨fun returns => absurd returns not_returns_error, fun all => (all trivial).elim⟩
    | data => exact ⟨fun _ => nofun, fun _ => .ok _⟩
    | bss => exact ⟨fun _ => nofun, fun _ => .ok _⟩
    | text => exact ⟨fun _ => nofun, fun _ => .ok _⟩

private theorem Located.single (keeps : Keeps executable final)
    (found : ∀ kind, elf.kindOf shdr = some kind →
      final.baseOf kind = placeOf readonlySegment writableSegment executable shdr kind)
    (others : ∀ kind, elf.kindOf shdr ≠ some kind → final.baseOf kind = executable.baseOf kind)
    (size : final.stackSize = 0x1100 ∨ elf.kindOf shdr ≠ some .stack ∧
      final.stackSize = executable.stackSize) :
    Located elf readonlySegment writableSegment [shdr] executable final where
  keeps := keeps
  base kind := by
    by_cases named : elf.kindOf shdr = some kind
    · simp [named, found kind named]
    · simp [named, others kind named]
  size := by
    refine size.imp_right fun ⟨other, same⟩ => ⟨?_, same⟩
    intro shdr member
    rw [List.mem_singleton.mp member]
    exact other

private theorem loadSection_located
    (done : loadSection elf readonlySegment writableSegment executable shdr = .ok final) :
    Located elf readonlySegment writableSegment [shdr] executable final := by
  have single {kind : SectionKind} (named : elf.kindOf shdr = some kind)
    (keeps : Keeps executable final)
      (base : ∀ other, final.baseOf other =
        if other = kind then placeOf readonlySegment writableSegment executable shdr kind
        else executable.baseOf other)
      (size : final.stackSize = 0x1100 ∨ kind ≠ .stack ∧ final.stackSize = executable.stackSize) :
      Located elf readonlySegment writableSegment [shdr] executable final := by
    refine .single keeps ?_ ?_ ?_
    · intro other same
      obtain rfl : kind = other := Option.some.inj (named.symm.trans same)
      rw [base kind, if_pos rfl]
    · intro other different
      rw [base other, if_neg]
      intro same
      exact different (same ▸ named)
    · exact size.imp_right fun ⟨other, same⟩ =>
        ⟨fun stack => other (Option.some.inj (named.symm.trans stack)), same⟩
  cases named : elf.kindOf shdr with
  | none =>
    simp only [loadSection_eq, named, Except.ok.injEq] at done
    subst done
    refine .single (.refl _) (fun kind same => ?_) (fun _ _ => rfl) (.inr ⟨?_, rfl⟩)
    · rw [named] at same; cases same
    · rw [named]; nofun
  | some found =>
    cases found with
    | stack =>
      simp only [loadSection_eq, named] at done
      split at done
      next size =>
        simp only [Except.ok.injEq] at done
        subst done
        refine single named ⟨rfl, rfl, rfl, rfl, rfl⟩
          (LoadedExecutable.baseOf_stack _ _ _) (.inl ?_)
        rw [size]; rfl
      next => cases done
    | data =>
      simp only [loadSection_eq, named, Except.ok.injEq] at done
      subst done
      exact single named ⟨rfl, rfl, rfl, rfl, rfl⟩ (LoadedExecutable.baseOf_data _ _)
        (.inr ⟨nofun, rfl⟩)
    | bss =>
      simp only [loadSection_eq, named, Except.ok.injEq] at done
      subst done
      exact single named ⟨rfl, rfl, rfl, rfl, rfl⟩ (LoadedExecutable.baseOf_bss _ _)
        (.inr ⟨nofun, rfl⟩)
    | text =>
      simp only [loadSection_eq, named, Except.ok.injEq] at done
      subst done
      exact single named ⟨rfl, rfl, rfl, rfl, rfl⟩ (LoadedExecutable.baseOf_text _ _)
        (.inr ⟨nofun, rfl⟩)

variable {remaining index : Nat}

/-- The loop fails where a header cannot be read or the size of a stack is not the expected one. -/
theorem loadSections_returns :
    Returns (loadSections elf readonlySegment writableSegment remaining index executable) ↔
      (0 < remaining → wrap (elf.base + elf.header.shoff.toNat) % 4 = 0) ∧
        ∀ shdr ∈ (List.range' index remaining).map elf.sections, elf.kindOf shdr = some .stack →
        shdr.size = 0x1100 := by
  induction remaining generalizing index executable with
  | zero => exact ⟨fun _ => ⟨nofun, nofun⟩, fun _ => .ok _⟩
  | succ remaining ih =>
    rw [loadSections, List.range'_succ, List.map_cons, List.forall_mem_cons]
    constructor
    · intro ⟨final, done⟩
      obtain ⟨aligned, rest⟩ := access_ok.mp done
      obtain ⟨middle, first, rest⟩ := bind_ok.mp rest
      obtain ⟨_, sizes⟩ := ih.mp ⟨final, rest⟩
      exact ⟨fun _ => aligned, loadSection_returns.mp ⟨middle, first⟩, sizes⟩
    · intro ⟨aligned, size, sizes⟩
      obtain ⟨middle, first⟩ := loadSection_returns.mpr size
      obtain ⟨final, rest⟩ := (@ih middle (index + 1)).mpr
        ⟨fun _ => aligned (Nat.succ_pos _), sizes⟩
      exact ⟨final, access_ok.mpr ⟨aligned (Nat.succ_pos _), bind_ok.mpr ⟨middle, first, rest⟩⟩⟩

theorem loadSections_located
    (done : loadSections elf readonlySegment writableSegment remaining index executable = .ok final) :
    Located elf readonlySegment writableSegment ((List.range' index remaining).map elf.sections)
      executable final := by
  induction remaining generalizing index executable with
  | zero =>
    cases done
    exact .refl
  | succ remaining ih =>
    rw [loadSections] at done
    obtain ⟨_, rest⟩ := access_ok.mp done
    obtain ⟨middle, first, rest⟩ := bind_ok.mp rest
    rw [List.range'_succ, List.map_cons, ← List.singleton_append]
    exact (loadSection_located first).trans (ih rest)

def started (elf : ElfWrapper) (readonlySegment : Elf.Phdr) (range : PageRange) :
    LoadedExecutable where
  entry := wrap (wrap (elf.base + readonlySegment.offset.toNat) + (elf.header.entry - readonlySegment.vaddr).toNat)
  readonlyBase := wrap (elf.base + readonlySegment.offset.toNat)
  readonlySize := readonlySegment.memsz.toNat
  writableBase := range.base
  writableSize := range.size
  dataBase := 0
  textBase := 0
  bssBase := 0
  stackBase := 0
  stackSize := 0

variable {range : PageRange}

theorem locate_ok : locate elf readonlySegment writableSegment range = .ok final ↔
    (readonlySegment.vaddr ≤ elf.header.entry ∧ elf.header.entry - readonlySegment.vaddr <
      readonlySegment.memsz) ∧
      loadSections elf readonlySegment writableSegment (elf.header.shnum.toNat - 1) 1
        (started elf readonlySegment range) =
        .ok final ∧ ∀ kind, final.baseOf kind ≠ 0 := by
  have all : (∀ kind, final.baseOf kind ≠ 0) ↔
      final.textBase ≠ 0 ∧ final.dataBase ≠ 0 ∧ final.stackBase ≠ 0 ∧ final.bssBase ≠ 0 := by
    constructor
    · exact fun each => ⟨each .text, each .data, each .stack, each .bss⟩
    · rintro ⟨text, data, stack, bss⟩ (_ | _ | _ | _) <;> assumption
  rw [all, locate, verify_ok, verify_ok, bind_ok]
  simp only [decide_eq_true_eq, verify_ok, Except.ok.injEq]
  constructor
  · rintro ⟨above, below, executable, visited, text, data, stack, bss, rfl⟩
    exact ⟨⟨above, below⟩, visited, text, data, stack, bss⟩
  · rintro ⟨⟨above, below⟩, visited, text, data, stack, bss⟩
    exact ⟨above, below, final, visited, text, data, stack, bss, rfl⟩

/-- The checks behind the copy of the segment, apart from the first. -/
structure Passes (elf : ElfWrapper) (readonlySegment writableSegment : Elf.Phdr)
    (range : PageRange) : Prop where
  entry : readonlySegment.vaddr ≤ elf.header.entry ∧
    elf.header.entry - readonlySegment.vaddr < readonlySegment.memsz
  aligned : 0 < elf.header.shnum.toNat - 1 → wrap (elf.base + elf.header.shoff.toNat) % 4 = 0
  sizes : ∀ shdr ∈ elf.visited, elf.kindOf shdr = some .stack → shdr.size = 0x1100
  found : ∀ kind, ∃ shdr, elf.lastOf kind = some shdr ∧
    placeOf readonlySegment writableSegment (started elf readonlySegment range) shdr kind ≠ 0

theorem Located.nonzero_iff (located : Located elf readonlySegment writableSegment elf.visited (started elf readonlySegment range) final)
    (kind : SectionKind) : final.baseOf kind ≠ 0 ↔ ∃ shdr, elf.lastOf kind = some shdr ∧
      placeOf readonlySegment writableSegment (started elf readonlySegment range)
        shdr kind ≠ 0 := by
  rw [located.base kind, ElfWrapper.lastOf]
  cases elf.visited.reverse.find? fun shdr => elf.kindOf shdr = some kind with
  | none =>
    refine ⟨fun nonzero => (nonzero ?_).elim, nofun⟩
    cases kind <;> rfl
  | some shdr => simp

private theorem locate_returns :
    Returns (locate elf readonlySegment writableSegment range) ↔
    Passes elf readonlySegment writableSegment range := by
  constructor
  · intro ⟨final, done⟩
    obtain ⟨entry, visited, nonzero⟩ := locate_ok.mp done
    obtain ⟨aligned, sizes⟩ := loadSections_returns.mp ⟨final, visited⟩
    exact ⟨entry, aligned, sizes,
      fun kind => ((loadSections_located visited).nonzero_iff kind).mp (nonzero kind)⟩
  · intro passes
    obtain ⟨final, visited⟩ := loadSections_returns.mpr ⟨passes.aligned, passes.sizes⟩
    refine ⟨final, locate_ok.mpr ⟨passes.entry, visited, ?_⟩⟩
    intro kind
    exact ((loadSections_located visited).nonzero_iff kind).mpr (passes.found kind)

end Sections

structure Delivers (elf : ElfWrapper) (executable : LoadedExecutable) (memory : Memory) : Prop where
  stack : Area.Inside ⟨executable.stackBase, executable.stackSize⟩ executable.writableBase
    (executable.writableBase + executable.writableSize)
  data : executable.writableBase ≤ executable.dataBase ∧
    executable.dataBase < executable.writableBase + executable.writableSize
  bss : executable.writableBase ≤ executable.bssBase ∧
    executable.bssBase < executable.writableBase + executable.writableSize
  entry : executable.readonlyBase ≤ executable.entry ∧
    executable.entry < executable.readonlyBase + executable.readonlySize
  contents : memory.window executable.writableBase (elf.segments 2).memsz.toNat =
    elf.bytes (elf.segments 2).offset.toNat (elf.segments 2).filesz.toNat ++
      List.replicate ((elf.segments 2).memsz.toNat - (elf.segments 2).filesz.toNat) 0

/-- The loader writes only to the block that the thread owns, and hands out nothing else. -/
structure Confined (elf : ElfWrapper) (loading : Loading) : Prop where
  defined : loading.outcome ≠ .error .undefined
  writes : ∀ area ∈ loading.writes, ∃ range ∈ loading.owned, area.Inside range.base range.stop
  returns : ∀ executable allocator, loading.outcome = .ok (executable, allocator) →
    (∃ range ∈ loading.owned, executable.writableBase = range.base ∧
      executable.writableSize = range.size) ∧
      Delivers elf executable allocator.memory

structure Fitting (elf : ElfWrapper) (readonlySegment writableSegment : Elf.Phdr)
    (range : PageRange) : Prop where
  stack : ∀ shdr, elf.lastOf .stack = some shdr →
    minus shdr.addr.toNat writableSegment.vaddr.toNat + 0x1100 ≤ range.size
  data : ∀ shdr, elf.lastOf .data = some shdr →
    minus shdr.addr.toNat writableSegment.vaddr.toNat < range.size
  bss : ∀ shdr, elf.lastOf .bss = some shdr →
    minus shdr.addr.toNat writableSegment.vaddr.toNat < range.size
  entry : wrap (elf.base + readonlySegment.offset.toNat) +
    (elf.header.entry - readonlySegment.vaddr).toNat < 2 ^ 32

def Takes (elf : ElfWrapper) (readonlySegment writableSegment : Elf.Phdr)
    (range : PageRange) : Prop :=
  writableSegment.filesz.toNat ≤ range.size ∧
    (writableSegment.filesz.toNat ≤ writableSegment.memsz.toNat →
    Passes elf readonlySegment writableSegment range →
      Fitting elf readonlySegment writableSegment range)

/-- Of an image whose segments are accepted, the size of the writable one can be rounded up and the
block takes it. -/
def Loadable (elf : ElfWrapper) (allocator : PageAllocator) : Prop :=
  ∀ readonlySegment writableSegment, checkSegments elf = .ok (readonlySegment, writableSegment) →
    (0 < writableSegment.memsz.toNat ∧ writableSegment.memsz.toNat < 2 ^ 31) ∧
      ∀ range after, allocateWritable writableSegment allocator = .ok (range, after) →
        Takes elf readonlySegment writableSegment range

section Loading
variable {elf : ElfWrapper} {readonlySegment writableSegment : Elf.Phdr}
  {allocator after : PageAllocator} {range : PageRange}
  {good : PageRange → Prop} {space : Set Nat} {free live : List PageRange}

theorem verify_defined (condition : Bool) :
    Yields (· ≠ .undefined) (verify condition) fun _ => True := by
  cases condition with
  | false => exact .error nofun
  | true => exact .ok trivial

theorem access_defined (elf : ElfWrapper) (offset : Nat) :
    Yields (· ≠ .undefined) (elf.access offset) fun _ => True := by
  unfold ElfWrapper.access
  split
  · exact .ok trivial
  · exact .error nofun

private theorem checkSegments_defined (elf : ElfWrapper) :
    Yields (· ≠ .undefined) (checkSegments elf) fun segments =>
    segments = (elf.segments 1, elf.segments 2) := by
  refine (access_defined _ _).bind fun _ _ => (verify_defined _).bind fun _ _ =>
    (access_defined _ _).bind fun _ _ => ?_
  refine (verify_defined _).bind fun _ _ => (verify_defined _).bind fun _ _ =>
    (verify_defined _).bind fun _ _ => ?_
  exact (verify_defined _).bind fun _ _ => (verify_defined _).bind fun _ _ =>
    (verify_defined _).bind fun _ _ => .ok rfl

private theorem loadSection_defined (executable : LoadedExecutable) (shdr : Elf.Shdr) :
    Yields (· ≠ .undefined) (loadSection elf readonlySegment writableSegment executable shdr)
      fun _ => True := by
  unfold loadSection
  split
  · split
    · exact .ok trivial
    · exact .error nofun
  all_goals exact .ok trivial

private theorem loadSections_defined (remaining index : Nat) (executable : LoadedExecutable) :
    Yields (· ≠ .undefined) (loadSections elf readonlySegment writableSegment remaining index executable) fun _ => True := by
  induction remaining generalizing index executable with
  | zero => exact .ok trivial
  | succ remaining ih =>
    refine (access_defined _ _).bind fun _ _ => (loadSection_defined _ _).bind fun middle _ => ?_
    exact ih (index + 1) middle

private theorem locate_defined :
    Yields (· ≠ .undefined) (locate elf readonlySegment writableSegment range) fun _ => True := by
  refine (verify_defined _).bind fun _ _ => (verify_defined _).bind fun _ _ =>
    (loadSections_defined _ _ _).bind fun _ _ => ?_
  refine (verify_defined _).bind fun _ _ => (verify_defined _).bind fun _ _ => ?_
  exact (verify_defined _).bind fun _ _ => (verify_defined _).bind fun _ _ => .ok trivial

private theorem allocateWritable_undefined :
    allocateWritable writableSegment allocator = .error .undefined ↔
    ¬ (0 < writableSegment.memsz.toNat ∧ writableSegment.memsz.toNat < 2 ^ 31) := by
  constructor
  · intro failed inside
    obtain ⟨rounded, _⟩ := Std.lt_roundToPowerOfTwo inside.1 inside.2
    rw [allocateWritable, rounded] at failed
    simp only at failed
    split at failed <;> try cases failed
    split at failed <;> cases failed
  · intro outside
    have undefined : Std.roundToPowerOfTwo writableSegment.memsz.toNat = .error .undefined := by
      unfold Std.roundToPowerOfTwo Std.clz
      refine if_pos ?_
      by_contra defined
      rw [not_or] at defined
      refine outside ⟨Nat.pos_iff_ne_zero.mpr defined.1, ?_⟩
      have below : Nat.log2 writableSegment.memsz.toNat < 31 := by omega
      exact (Nat.log2_lt defined.1).mp below
    rw [allocateWritable, undefined]

private theorem allocateWritable_placed (holds : allocator.Holds good space free live)
    (halving : PageRange.Halving good)
    (small : 0 < writableSegment.memsz.toNat ∧ writableSegment.memsz.toNat < 2 ^ 31)
    (done : allocateWritable writableSegment allocator = .ok (range, after)) :
    range.stop ≤ 2 ^ 32 ∧ writableSegment.memsz.toNat < range.size := by
  obtain ⟨rounded, larger⟩ := Std.lt_roundToPowerOfTwo small.1 small.2
  rw [allocateWritable, rounded] at done
  simp only at done
  split at done <;> try cases done
  next allocated =>
    split at done <;> cases done
    next size =>
      obtain ⟨_, rest, same, _, taken, _⟩ := holds.allocateUp halving allocated
      cases same
      obtain ⟨placed, _⟩ := taken.placed range (by simp)
      exact ⟨placed.fits, size ▸ larger⟩

private theorem started_place (fits : range.stop ≤ 2 ^ 32) {address count : Nat}
    (small : address < 2 ^ 32) (some : 0 < count) :
    range.base ≤ wrap (range.base + address) ∧
    wrap (range.base + address) + count ≤ range.base + range.size ↔
      address + count ≤ range.size := by
  unfold PageRange.stop at fits
  unfold wrap
  omega

private theorem minus_lt (left right : Nat) : minus left right < 2 ^ 32 := Nat.mod_lt _ (by decide)

private theorem wrap_lt (value : Nat) : wrap value < 2 ^ 32 := Nat.mod_lt _ (by decide)

private theorem entry_place {start offset size : Nat} (small : start < 2 ^ 32)
    (below : offset < size) (word : size < 2 ^ 32) :
    start ≤ wrap (start + offset) ∧ wrap (start + offset) < start + size ↔
    start + offset < 2 ^ 32 := by
  unfold wrap
  omega

private theorem delivers_iff (fits : range.stop ≤ 2 ^ 32) {executable : LoadedExecutable}
    {memory : Memory}
    (done : locate elf (elf.segments 1) (elf.segments 2) range = .ok executable)
    (contents : memory.window range.base (elf.segments 2).memsz.toNat =
      elf.bytes (elf.segments 2).offset.toNat (elf.segments 2).filesz.toNat ++
        List.replicate ((elf.segments 2).memsz.toNat - (elf.segments 2).filesz.toNat) 0) :
    Delivers elf executable memory ↔ Fitting elf (elf.segments 1) (elf.segments 2) range := by
  obtain ⟨⟨_, below⟩, visited, nonzero⟩ := locate_ok.mp done
  have located := loadSections_located visited
  obtain ⟨entry, readonlyBase, readonlySize, writableBase, writableSize⟩ := located.keeps
  have base (kind : SectionKind) : ∃ shdr, elf.lastOf kind = some shdr ∧
      executable.baseOf kind = placeOf (elf.segments 1) (elf.segments 2)
        (started elf (elf.segments 1) range) shdr kind := by
    obtain ⟨shdr, last, _⟩ := (located.nonzero_iff kind).mp (nonzero kind)
    refine ⟨shdr, last, ?_⟩
    rw [located.base kind]
    unfold ElfWrapper.lastOf ElfWrapper.visited at last
    rw [last]
    rfl
  obtain ⟨stack, lastStack, stackBase⟩ := base .stack
  obtain ⟨data, lastData, dataBase⟩ := base .data
  obtain ⟨bss, lastBss, bssBase⟩ := base .bss
  have stackSize : executable.stackSize = 0x1100 := by
    refine located.size.resolve_right ?_
    intro ⟨absent, _⟩
    have named := List.find?_some lastStack
    have member := List.mem_of_find?_eq_some lastStack
    exact absent stack (List.mem_reverse.mp member) (of_decide_eq_true named)
  have stackIff := started_place fits (minus_lt stack.addr.toNat (elf.segments 2).vaddr.toNat)
    (show 0 < 0x1100 by decide)
  have dataIff := started_place fits (minus_lt data.addr.toNat (elf.segments 2).vaddr.toNat) Nat.one_pos
  have bssIff := started_place fits (minus_lt bss.addr.toNat (elf.segments 2).vaddr.toNat) Nat.one_pos
  have entryIff := entry_place (wrap_lt (elf.base + (elf.segments 1).offset.toNat))
    (UInt32.lt_iff_toNat_lt.mp below)
    (UInt32.toNat_lt _)
  have stackAt : executable.stackBase = wrap (range.base + minus stack.addr.toNat (elf.segments 2).vaddr.toNat) := stackBase
  have dataAt : executable.dataBase = wrap (range.base + minus data.addr.toNat (elf.segments 2).vaddr.toNat) := dataBase
  have bssAt : executable.bssBase = wrap (range.base + minus bss.addr.toNat (elf.segments 2).vaddr.toNat) := bssBase
  have writableAt : executable.writableBase = range.base ∧ executable.writableSize = range.size :=
    ⟨writableBase, writableSize⟩
  have readonlyAt : executable.readonlyBase = wrap (elf.base + (elf.segments 1).offset.toNat) ∧
      executable.readonlySize = (elf.segments 1).memsz.toNat := ⟨readonlyBase, readonlySize⟩
  have entryAt : executable.entry = wrap (wrap (elf.base + (elf.segments 1).offset.toNat) +
      (elf.header.entry - (elf.segments 1).vaddr).toNat) := entry
  constructor
  · intro delivers
    have inside := (Area.inside_iff (show 0 < executable.stackSize by rw [stackSize]; decide)).mp delivers.stack
    have entryInside := delivers.entry
    have dataInside := delivers.data
    have bssInside := delivers.bss
    rw [stackAt, stackSize, writableAt.1, writableAt.2] at inside
    rw [dataAt, writableAt.1, writableAt.2] at dataInside
    rw [bssAt, writableAt.1, writableAt.2] at bssInside
    rw [entryAt, readonlyAt.1, readonlyAt.2] at entryInside
    refine ⟨?_, ?_, ?_, entryIff.mp entryInside⟩
    · intro shdr last
      cases lastStack.symm.trans last
      exact stackIff.mp inside
    · intro shdr last
      cases lastData.symm.trans last
      exact dataIff.mp dataInside
    · intro shdr last
      cases lastBss.symm.trans last
      exact bssIff.mp bssInside
  · intro fitting
    refine ⟨?_, ?_, ?_, ?_, ?_⟩
    · refine (Area.inside_iff (show 0 < executable.stackSize by rw [stackSize]; decide)).mpr ?_
      rw [stackAt, stackSize, writableAt.1, writableAt.2]
      exact stackIff.mpr (fitting.stack stack lastStack)
    · rw [dataAt, writableAt.1, writableAt.2]
      exact dataIff.mpr (fitting.data data lastData)
    · rw [bssAt, writableAt.1, writableAt.2]
      exact bssIff.mpr (fitting.bss bss lastBss)
    · rw [entryAt, readonlyAt.1, readonlyAt.2]
      exact entryIff.mpr fitting.entry
    · rw [writableAt.1]
      exact contents

private theorem filled_contents (memory : Memory) (address count : Nat) (bytes : List UInt8) :
    ((memory.writeBytes address bytes).fill (address +
      bytes.length) 0 count).window address (bytes.length + count) =
      bytes ++ List.replicate count 0 := by
  have written := memory.window_writeBytes address bytes []
  rw [List.append_nil] at written
  rw [Memory.window_append, Memory.window_fill]
  congr 1
  refine Eq.trans (Memory.Agree.window (Memory.fill_agree _ (.inl ?_))) written
  exact Nat.le_refl _

private theorem ElfWrapper.bytes_length (elf : ElfWrapper) (offset count : Nat) :
    (elf.bytes offset count).length = count := by
  rw [ElfWrapper.bytes, List.length_map, List.length_range]

/-- Where the file bytes are too many the loader stops behind the copy. -/
theorem confined_overlong (checked : checkSegments elf = .ok (elf.segments 1, elf.segments 2))
    (allocated : allocateWritable (elf.segments 2) allocator = .ok (range, after))
    (size : ¬ (elf.segments 2).filesz.toNat ≤ (elf.segments 2).memsz.toNat) :
    Confined elf (loadExecutableIntoMemory elf allocator) ↔
    Takes elf (elf.segments 1) (elf.segments 2) range := by
  have stopped : loadExecutableIntoMemory elf allocator =
      ⟨some range, [⟨range.base, (elf.segments 2).filesz.toNat⟩], .error .verify⟩ := by
    rw [loadExecutableIntoMemory, checked]
    simp only [allocated, ge_iff_le, if_neg size]
  rw [stopped]
  constructor
  · intro confined
    refine ⟨?_, fun other => absurd other size⟩
    obtain ⟨_, same, inside⟩ := confined.writes _ (List.mem_singleton_self _)
    cases same
    obtain ⟨_, below⟩ := (Area.inside_iff (show 0 < (elf.segments 2).filesz.toNat by omega)).mp inside
    exact Nat.le_of_add_le_add_left below
  · intro ⟨room, _⟩
    refine ⟨nofun, ?_, nofun⟩
    intro area member
    obtain rfl := List.mem_singleton.mp member
    exact ⟨range, rfl, Area.inside_of_le (Nat.le_refl _) (Nat.add_le_add_left room _)⟩

private theorem confined_copied (checked : checkSegments elf = .ok (elf.segments 1, elf.segments 2))
    (allocated : allocateWritable (elf.segments 2) allocator = .ok (range, after))
    (fits : range.stop ≤ 2 ^ 32)
    (room : (elf.segments 2).memsz.toNat < range.size)
    (size : (elf.segments 2).filesz.toNat ≤ (elf.segments 2).memsz.toNat) :
    Confined elf (loadExecutableIntoMemory elf allocator) ↔
    Takes elf (elf.segments 1) (elf.segments 2) range := by
  obtain ⟨memory, filled⟩ : ∃ memory, memory =
      (after.memory.writeBytes range.base (elf.bytes (elf.segments 2).offset.toNat (elf.segments 2).filesz.toNat)).fill
        (range.base + (elf.segments 2).filesz.toNat) 0
          ((elf.segments 2).memsz.toNat - (elf.segments 2).filesz.toNat) := ⟨_, rfl⟩
  have reached : loadExecutableIntoMemory elf allocator =
      ⟨some range, [⟨range.base, (elf.segments 2).filesz.toNat⟩,
        ⟨range.base + (elf.segments 2).filesz.toNat,
          (elf.segments 2).memsz.toNat - (elf.segments 2).filesz.toNat⟩],
        (locate elf (elf.segments 1) (elf.segments 2) range).map fun executable =>
          (executable, { after with memory })⟩ := by
    rw [loadExecutableIntoMemory, checked, filled]
    simp only [allocated, ge_iff_le, if_pos size]
  have contents : memory.window range.base (elf.segments 2).memsz.toNat =
      elf.bytes (elf.segments 2).offset.toNat (elf.segments 2).filesz.toNat ++
        List.replicate ((elf.segments 2).memsz.toNat - (elf.segments 2).filesz.toNat) 0 := by
    have whole := filled_contents after.memory range.base
      ((elf.segments 2).memsz.toNat - (elf.segments 2).filesz.toNat)
      (elf.bytes (elf.segments 2).offset.toNat (elf.segments 2).filesz.toNat)
    rw [ElfWrapper.bytes_length, Nat.add_sub_cancel' size] at whole
    rw [filled]
    exact whole
  rw [reached]
  constructor
  · intro confined
    refine ⟨Nat.le_trans size (Nat.le_of_lt room), ?_⟩
    intro _ passes
    obtain ⟨executable, done⟩ := locate_returns.mpr passes
    obtain ⟨_, delivers⟩ := confined.returns executable { after with memory } (by rw [done]; rfl)
    exact (delivers_iff fits done contents).mp delivers
  · intro ⟨_, fitting⟩
    refine ⟨?_, ?_, ?_⟩
    · cases done : locate elf (elf.segments 1) (elf.segments 2) range with
      | error fault =>
        intro same
        exact locate_defined.fault done (Except.error.inj same)
      | ok executable => exact nofun
    · intro area member
      refine ⟨range, rfl, ?_⟩
      unfold PageRange.stop
      rcases List.mem_pair.mp member with rfl | rfl
      · exact Area.inside_of_le (Nat.le_refl _) (Nat.add_le_add_left (Nat.le_trans size (Nat.le_of_lt room)) _)
      · refine Area.inside_of_le (Nat.le_add_right _ _) ?_
        show range.base + (elf.segments 2).filesz.toNat +
          ((elf.segments 2).memsz.toNat - (elf.segments 2).filesz.toNat) ≤ _
        omega
    · intro executable allocator returned
      cases done : locate elf (elf.segments 1) (elf.segments 2) range with
      | error fault => rw [done] at returned; cases returned
      | ok located =>
        rw [done] at returned
        cases returned
        obtain ⟨_, visited, _⟩ := locate_ok.mp done
        have keeps := (loadSections_located visited).keeps
        refine ⟨⟨range, rfl, keeps.writableBase, keeps.writableSize⟩,
          (delivers_iff fits done contents).mpr ?_⟩
        exact fitting size (locate_returns.mp ⟨executable, done⟩)

/-- Between two calls of the allocator the loader is confined exactly to the images that can be
loaded. -/
theorem confined_iff (holds : allocator.Holds good space free live)
    (halving : PageRange.Halving good) :
    Confined elf (loadExecutableIntoMemory elf allocator) ↔ Loadable elf allocator := by
  cases checked : checkSegments elf with
  | error fault =>
    have stopped : loadExecutableIntoMemory elf allocator = ⟨none, [], .error fault⟩ := by
      rw [loadExecutableIntoMemory, checked]
    have vacuous : Loadable elf allocator := by
      intro readonlySegment writableSegment accepted
      cases checked.symm.trans accepted
    rw [stopped]
    refine ⟨fun _ => vacuous, fun _ => ⟨?_, nofun, nofun⟩⟩
    intro same
    exact (checkSegments_defined elf).fault checked (Except.error.inj same)
  | ok segments =>
    obtain rfl := (checkSegments_defined elf).value checked
    have loadable : Loadable elf allocator ↔ (0 < (elf.segments 2).memsz.toNat ∧
      (elf.segments 2).memsz.toNat < 2 ^ 31) ∧
        ∀ range after, allocateWritable (elf.segments 2) allocator = .ok (range, after) →
          Takes elf (elf.segments 1) (elf.segments 2) range := by
      constructor
      · exact fun loadable => loadable _ _ checked
      · intro conditions readonlySegment writableSegment accepted
        cases checked.symm.trans accepted
        exact conditions
    rw [loadable]
    by_cases small : 0 < (elf.segments 2).memsz.toNat ∧ (elf.segments 2).memsz.toNat < 2 ^ 31
    · cases allocated : allocateWritable (elf.segments 2) allocator with
      | error fault =>
        have stopped : loadExecutableIntoMemory elf allocator = ⟨none, [], .error fault⟩ := by
          rw [loadExecutableIntoMemory, checked]
          simp only [allocated]
        rw [stopped]
        refine ⟨fun _ => ⟨small, nofun⟩, fun _ => ⟨?_, nofun, nofun⟩⟩
        intro same
        cases same
        exact allocateWritable_undefined.mp allocated small
      | ok block =>
        obtain ⟨range, after⟩ := block
        obtain ⟨fits, room⟩ := allocateWritable_placed holds halving small allocated
        have takes : Confined elf (loadExecutableIntoMemory elf allocator) ↔
          Takes elf (elf.segments 1) (elf.segments 2) range := by
          by_cases size : (elf.segments 2).filesz.toNat ≤ (elf.segments 2).memsz.toNat
          · exact confined_copied checked allocated fits room size
          · exact confined_overlong checked allocated size
        rw [takes]
        constructor
        · intro fitting
          refine ⟨small, ?_⟩
          intro other next same
          cases same
          exact fitting
        · exact fun conditions => conditions.2 range after rfl
    · have stopped : loadExecutableIntoMemory elf allocator = ⟨none, [], .error .undefined⟩ := by
        rw [loadExecutableIntoMemory, checked]
        simp only [allocateWritable_undefined.mpr small]
      rw [stopped]
      exact ⟨fun confined => absurd rfl confined.defined,
        fun conditions => absurd conditions.1 small⟩

end Loading

/-- In every state of the page allocator, for every image. -/
theorem loader_confined_iff {memory : Memory} {areaStart areaEnd : Nat}
    (area : PageArea areaStart areaEnd) :
    ∃ allocator, PageAllocator.construct memory areaStart areaEnd = .ok allocator ∧
      ∀ history state, PageState.machine.Run ⟨allocator, []⟩ history state →
        ∀ elf, Confined elf (loadExecutableIntoMemory elf state.allocator) ↔
        Loadable elf state.allocator := by
  obtain ⟨allocator, found, space, built, holds, _⟩ := area.constructed memory
  refine ⟨allocator, built, ?_⟩
  intro history state run elf
  have initial : (⟨allocator, []⟩ : PageState).Holds (fun _ => True) space := ⟨found, holds⟩
  obtain ⟨free, current⟩ := initial.reachable PageState.halving_true ⟨history, run⟩
  exact confined_iff current PageState.halving_true

theorem loader_confined_iff_start :
    ∃ allocator, PageAllocator.construct (fun _ => 0) 0x20000100 0x20003000 = .ok allocator ∧
      ∀ elf, Confined elf (loadExecutableIntoMemory elf allocator) ↔ Loadable elf allocator := by
  have area : PageArea 0x20000100 0x20003000 := .of_margin (by decide) (by decide) (by decide)
  obtain ⟨allocator, built, runs⟩ := @loader_confined_iff (fun _ => 0) _ _ area
  exact ⟨allocator, built, runs [] ⟨allocator, []⟩ .start⟩

def overlongHeader : Elf.Ehdr where
  ident _ := 0
  type := 2
  machine := 40
  version := 1
  entry := 0
  phoff := 52
  shoff := 0
  flags := 0
  ehsize := 52
  phentsize := 32
  phnum := 3
  shentsize := 40
  shnum := 0
  shstrndx := 0

def overlongImage : List UInt8 :=
  Record.encode overlongHeader ++ Record.encodeAll
    [(⟨ptArmExidx, 0, 0, 0, 0, 0, 4, 4⟩ : Elf.Phdr), ⟨ptLoad, 0, 0, 0, 148, 148, 5, 4⟩,
      ⟨ptLoad, 148, 0, 0, 0x1000, 0x100, 6, 4⟩]

def overlongWrapper : ElfWrapper where
  base := 0x10010000
  memory address := overlongImage.getD (address - 0x10010000) 0

/-- It is copied over what lies behind the block. -/
theorem loader_overruns :
    ∃ allocator, PageAllocator.construct (fun _ => 0) 0x20000100 0x20003000 = .ok allocator ∧
      ¬ Confined overlongWrapper (loadExecutableIntoMemory overlongWrapper allocator) := by
  have played : (PageAllocator.construct (fun _ => 0) 0x20000100 0x20003000).toOption.map
    (fun allocator =>
      ((loadExecutableIntoMemory overlongWrapper allocator).owned,
        (loadExecutableIntoMemory overlongWrapper allocator).writes)) =
        some (some ⟨9, 0x20002d00⟩, [⟨0x20002d00, 0x1000⟩]) := by
    decide +kernel
  cases built : PageAllocator.construct (fun _ => 0) 0x20000100 0x20003000 with
  | error fault => rw [built] at played; cases played
  | ok allocator =>
    rw [built] at played
    obtain ⟨owned, writes⟩ := Prod.mk.inj (Option.some.inj played)
    refine ⟨allocator, rfl, ?_⟩
    intro confined
    obtain ⟨range, same, inside⟩ :=
      confined.writes ⟨0x20002d00, 0x1000⟩ (by rw [writes]; exact List.mem_singleton_self _)
    rw [owned] at same
    cases same
    have bounds := (Area.inside_iff (show 0 < 0x1000 by decide)).mp inside
    exact absurd bounds.2 (by decide)

end PicoOs.Kernel
