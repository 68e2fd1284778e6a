import Apc8750.MemBlock.Steps

namespace Apc8750.MemBlock
open State Gaps

def NoOverlap (b c : MbStruct) : Prop :=
  ∀ pfn, ¬ ((b.pgi.pfnStart ≤ pfn ∧ pfn < b.pgi.pfnEnd) ∧
    c.pgi.pfnStart ≤ pfn ∧ pfn < c.pgi.pfnEnd)

structure AreaAccounted (a : MbArea) : Prop where
  ordered : a.mbList.Pairwise (fun b c => b.pgi.pfnStart < c.pgi.pfnStart)
  nonempty : ∀ b ∈ a.mbList, b.pgi.pfnStart < b.pgi.pfnEnd
  disjoint : a.mbList.Pairwise NoOverlap
  inside : ∀ b ∈ a.mbList, a.pgi.pfnStart ≤ b.pgi.pfnStart ∧ b.pgi.pfnEnd ≤ a.pgi.pfnEnd
  nrMb : a.nrMb = a.mbList.length
  totFree : a.totFreePages + (a.mbList.map (fun b => b.pgi.pfnEnd - b.pgi.pfnStart)).sum = a.pages
  isGap : a.maxAvailablePages ∈ gaps mbStart mbEnd a.pgi.pfnEnd a.pgi.pfnStart a.mbList
  largest : ∀ g ∈ gaps mbStart mbEnd a.pgi.pfnEnd a.pgi.pfnStart a.mbList,
    g ≤ a.maxAvailablePages

structure HostAccounted (s : State) : Prop where
  areas : ∀ a ∈ s.mbaList, AreaAccounted a
  totPages : s.totPages = (s.mbaList.map MbArea.pages).sum
  totFree : s.totFreePages = (s.mbaList.map MbArea.totFreePages).sum
  nrMba : s.nrMba = s.mbaList.length
  bound : ∀ a ∈ s.mbaList, a.maxAvailablePages ≤ s.maxAvailablePages
  attained : s.mbaList ≠ [] → ∃ a ∈ s.mbaList, a.maxAvailablePages = s.maxAvailablePages
  none : s.mbaList = [] → s.maxAvailablePages = 0

theorem AreaOk.accounted (h : AreaOk a) : AreaAccounted a := by
  obtain ⟨hin,hsep⟩ := h.laid.separated
  simp only [mbStart,mbEnd] at hin hsep
  refine ⟨?_,fun b hb => (hin b hb).2.1,?_,fun b hb => ⟨(hin b hb).1,(hin b hb).2.2⟩,
    h.nrMb,?_,?_,?_⟩
  · refine hsep.imp_of_mem ?_
    intro b c hb _ hbc
    exact Nat.lt_of_lt_of_le (hin b hb).2.1 hbc
  · refine hsep.imp ?_
    intro b c hbc pfn hpfn
    omega
  · have hroom := h.laid.room_add_used
    rw [← h.free] at hroom
    have hends := h.ends
    simp only [used,mbStart,mbEnd] at hroom
    omega
  · rw [h.available]
    exact largest_mem
  · rw [h.available]
    exact le_largest

theorem HostOk.accounted (h : HostOk s) : HostAccounted s := by
  refine ⟨fun a ha => (h.areas.each a ha).accounted,h.totPages,h.totFree,h.nrMba,?_,?_,?_⟩
  · intro a ha
    rw [h.available]
    exact Keyed.le_peak ha
  · intro hne
    rw [h.available]
    exact Keyed.peak_mem hne
  · intro hnil
    rw [h.available,hnil]
    rfl

/-- Every counter of every area and of the host is what the block lists make it. -/
theorem counters_match_blocks (h : Reached cfg trace s) : HostAccounted s :=
  h.driverOk.host.accounted

def smallConfig : Config := { dynamicAllocate := true, mbTotalSize := 256 }

def smallProbe : List (Option Nat × Option Nat) := [(some 1, some 512)]

def smallOps : List Op :=
  [.open 3 7 "player" true,
    .ioctl 3 7 (.malloc 8192 ⟨some 20, none, none, some 30⟩),
    .mmap 3 ⟨65536, 73728, 512⟩ (some 21) true,
    .doAlloc 4096 0 (some "codec") ⟨some 22, none, none, some 31⟩,
    .doAlloc 262144 0 (some "codec") ⟨some 23, some 2, some 1024, some 32⟩,
    .ioctl 3 7 (.free 65536)]

theorem counters_match_blocks_small : ∃ trace s, Reached smallConfig trace s ∧
    s.blocks.length = 2 ∧ s.mbaList.length = 2 ∧ HostAccounted s := by
  have h : (after smallConfig smallProbe smallOps).map
      (fun r => (r.2.blocks.length, r.2.mbaList.length)) = some (2, 2) := by decide +kernel
  obtain ⟨⟨trace, s⟩, hrun, hlen⟩ := Option.map_eq_some_iff.mp h
  simp only [Prod.mk.injEq] at hlen
  exact ⟨trace, s, .of_after hrun, hlen.1, hlen.2, counters_match_blocks (.of_after hrun)⟩

end Apc8750.MemBlock
