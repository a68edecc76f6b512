import SourceEdit.Unicode.Intervals

/-!
# Letter case

Two characters are equal up to case when their simple case foldings agree. The classes of more
than one character are either pairs, stored as runs of equally spaced pairs, or one of the few
larger classes, stored one by one.
-/

namespace SourceEdit.Unicode

/-- Pairs that differ in case only, as runs: the gap from the start of the previous run, the
number of further pairs, the step from pair to pair, and the distance within each pair. -/
def casePairText : List String :=
  ["cBJBbALGBbAIGBbAdMEBbAGQBbASGBbAHABhn5bAABdZBXCBbSCCBHHCBRWCBbPCCBHABgDBABgSBBCBEABgOBAB",
   "BCBBgNCABBDABcPBABgKBABgLBABBCABgNBABgPBABdBBABgTBABgRBABBCABfDBABbjsBBABgTBABgVBABeCBAB",
   "gWBCCBGABg0BABBCABg0DABBCABg0BABBCBBgZCBCBEABg1BABBEABBDABbYOHCBRICBWABBETCBbKICBYABkrLB",
   "ABBDABkrIBBBkr5CABBDABcFBABcHBECBKABkq5BABkq2BABkq4KABbjkPFABbjkLDABbjlHBABbjjIBABbjkEEA",
   "BbjkEBABkpXBABbjkBFABkp3MABkpHFABbjkDFABbjjKWABbjiVBABbjiSgSBCBGABBFCBeCEABdUHABbGCCBbFE",
   "ABcACBBb5CABhcDBBCbADBCbADABbAECCbADABbAGBBbADBBbADBBbAGABhbT5ABIJLCB0ABHFABBDABBGPBcQQB",
   "BbADGCbADDCbAKABbADGBbAIEBbAbVABBEOCBbG0CBbWABPBGCBPbPCBdBbFBbQc7PbFBhdAbHABhdAGABhdADbK",
   "Bc+AbNCBc+AvDcPBbf+QcQFBIceZABBhQABbcqEEABdxGRABbcrYdSbPCBdCZCBb4bPCBdAHBIQFBIQHBIQHBIQF",
   "BIRDCIPHBIQBBcKCDBcWEBBdECBBeACBBdQCBBd4EHBIQHBIQHBIQBBIDABJQABJNBBIQBBIFABHOABJj5AB2bOP",
   "BQbDABBzTZB0b6KbPBbQdAABBHCCBLABBDABBLbRCBdLBCBHABB+kOECBMQCBbUNCBfCGCBQ4CBcHBCBFECBNABB",
   "FBCBEABbQCJCB3AB9ABHCBTBCBFABBEABBGCCB5ABBuyQABBba2ZBbAbg5bHBbIfQbDBbIgAKBbHMOBbHQGBbHIB",
   "BbHbxMbSBcAgQVBbAc6Q5BbAvnA5BbA+wAbBBbC"]

def caseClasses : List (List Nat) := [
  [0x4B, 0x6B, 0x212A],
  [0x53, 0x73, 0x17F],
  [0xB5, 0x39C, 0x3BC],
  [0xC5, 0xE5, 0x212B],
  [0x1C4, 0x1C5, 0x1C6],
  [0x1C7, 0x1C8, 0x1C9],
  [0x1CA, 0x1CB, 0x1CC],
  [0x1F1, 0x1F2, 0x1F3],
  [0x345, 0x399, 0x3B9, 0x1FBE],
  [0x392, 0x3B2, 0x3D0],
  [0x395, 0x3B5, 0x3F5],
  [0x398, 0x3B8, 0x3D1, 0x3F4],
  [0x39A, 0x3BA, 0x3F0],
  [0x3A0, 0x3C0, 0x3D6],
  [0x3A1, 0x3C1, 0x3F1],
  [0x3A3, 0x3C2, 0x3C3],
  [0x3A6, 0x3C6, 0x3D5],
  [0x3A9, 0x3C9, 0x2126],
  [0x412, 0x432, 0x1C80],
  [0x414, 0x434, 0x1C81],
  [0x41E, 0x43E, 0x1C82],
  [0x421, 0x441, 0x1C83],
  [0x422, 0x442, 0x1C84, 0x1C85],
  [0x42A, 0x44A, 0x1C86],
  [0x462, 0x463, 0x1C87],
  [0x1C88, 0xA64A, 0xA64B],
  [0x1E60, 0x1E61, 0x1E9B]]

/-- A run of pairs `(start + i * step, start + i * step + offset)` for `i < count`. -/
structure CaseRun where
  start : Nat
  count : Nat
  step : Nat
  offset : Nat
  deriving Repr, DecidableEq

def caseRunsOf (start : Nat) : List Nat → List CaseRun
  | gap :: more :: step :: offset :: rest =>
    ⟨start + gap, more + 1, step, offset⟩ :: caseRunsOf (start + gap) rest
  | _ => []

def caseRuns : List CaseRun := caseRunsOf 0 (numbersOfLines casePairText)

/-- Whether some member of the interval has a case variant; used to skip long caseless stretches. -/
def caseRunMeets (lo hi : Nat) (run : CaseRun) : Bool :=
  let last := run.start + (run.count - 1) * run.step
  (run.start ≤ hi && lo ≤ last) || (run.start + run.offset ≤ hi && lo ≤ last + run.offset)

def CaseRun.variantsIn (run : CaseRun) (lo hi : Nat) : List Nat :=
  (List.range run.count).flatMap fun i =>
    let a := run.start + i * run.step
    let b := a + run.offset
    (if lo ≤ a && a ≤ hi then [b] else []) ++ (if lo ≤ b && b ≤ hi then [a] else [])

def CodeSet.closeUnderCase (set : CodeSet) : CodeSet :=
  let extra := set.ranges.flatMap fun (lo, hi) =>
    ((caseRuns.filter (caseRunMeets lo hi)).flatMap (·.variantsIn lo hi)) ++
    (caseClasses.filter (·.any fun n => lo ≤ n && n ≤ hi)).flatten
  set.union (CodeSet.ofRanges (extra.map fun n => (n, n)))

end SourceEdit.Unicode
