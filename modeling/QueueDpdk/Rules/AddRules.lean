import QueueDpdk.Lib.Attempts
import QueueDpdk.Lib.Fgets
import QueueDpdk.Qflow
import QueueDpdk.Rules.Parse

/-!
# Loading a rule file (`add_rules` of `nf-chain/src/main.c`)

The parser is a parameter, as in the source; it gives the fields of a rule and its `userdata` if it
reads that. `none` is an exit of the program. Rules are kept with the byte offsets at which they
are written.

* `isBypassLine`, `countLines`, `addLine`, `addRules` — the two passes.
* `Entry` — a line of the second pass with what is read from it.
* `addLines_run`, `addRules_some` — what an accepted file leaves behind: the entries of a kind in
  file order, each with its number of that kind and its number among all of them.
-/

set_option autoImplicit false

namespace QueueDpdk.Rules

open Lib

/-! ## The two passes -/

def LINE_MAX : ℕ := 2048
def ACL_LEAD_CHAR : Char := '@'
def ROUTE_LEAD_CHAR : Char := 'R'
def COMMENT_LEAD_CHAR : Char := '#'
def ACL_DENY_SIGNATURE : UInt32 := 0xf0000000
def FWD_PORT_SHIFT : UInt32 := 1
def RTE_ACL_MAX_PRIORITY : UInt32 := 0x1fffffff

/-- `struct rte_acl_rule`. -/
structure AclRule (F : Type) where
  categoryMask : UInt32
  priority : Int
  userdata : UInt32
  field : F
deriving DecidableEq, Repr

/-- `parser`. -/
abbrev Parser (F : Type) := List Char → Bool → Option (F × Option UInt32)

/-- `is_bypass_line`. -/
def isBypassLine (buff : List Char) : Bool :=
  buff.head? == some COMMENT_LEAD_CHAR || buff.all isSpace

/-- The first pass: `acl_num` and `route_num`. -/
def countLines (lines : List (List Char)) : UInt32 × UInt32 :=
  lines.foldl (fun num buff =>
    if buff.head? = some ROUTE_LEAD_CHAR then (num.1, num.2 + 1)
    else if buff.head? = some ACL_LEAD_CHAR then (num.1 + 1, num.2)
    else num) (0, 0)

/-- The state of the second pass: the rules written, by byte offset, and its counters. -/
structure Pass (F : Type) where
  acl : List (ℕ × AclRule F)
  route : List (ℕ × AclRule F)
  aclCnt : UInt32
  routeCnt : UInt32
  totalNum : UInt32

def Pass.init {F : Type} : Pass F := ⟨[], [], 0, 0, 0⟩

/-- The next priority. -/
def nextPriority (totalNum : UInt32) : Int :=
  toSigned (RTE_ACL_MAX_PRIORITY - totalNum).toNat

/-- One line of the second pass. -/
def addLine {F : Type} (parser : Parser F) (enabledPortMask ruleSize : UInt32) (st : Pass F)
    (buff : List Char) : Option (Pass F) :=
  if isBypassLine buff then some st
  else if buff.head? = some ROUTE_LEAD_CHAR then
    match parser buff.tail true with
    | none => none
    | some (field, read) =>
      -- a rule that is not read into keeps the 0 of `calloc`
      let userdata := read.getD 0
      if enabledPortMask &&& (1 <<< userdata) = 0 then none
      else
        let next := ⟨-1, nextPriority st.totalNum, userdata + FWD_PORT_SHIFT, field⟩
        some { st with
          route := st.route ++ [((st.routeCnt * ruleSize).toNat, next)]
          routeCnt := st.routeCnt + 1
          totalNum := st.totalNum + 1 }
  else if buff.head? = some ACL_LEAD_CHAR then
    match parser buff.tail false with
    | none => none
    | some (field, _) =>
      let next := ⟨-1, nextPriority st.totalNum, ACL_DENY_SIGNATURE + st.aclCnt, field⟩
      some { st with
        acl := st.acl ++ [((st.aclCnt * ruleSize).toNat, next)]
        aclCnt := st.aclCnt + 1
        totalNum := st.totalNum + 1 }
  else none

/-- What `add_rules` hands out: the rules, the numbers for which it allocated them, and the number
    of routes. -/
structure Loaded (F : Type) where
  acl : List (ℕ × AclRule F)
  aclNum : UInt32
  route : List (ℕ × AclRule F)
  routeNum : UInt32
  routeCnt : UInt32
deriving DecidableEq, Repr

/-- The lines of a file, as `fgets` puts them into `buff`. -/
def fileLines (content : List Char) : List (List Char) := (fgetsAll LINE_MAX content).map cString

/-- `add_rules`, for a file that can be opened or not, a result of `fseek`, and allocations that
    succeed or not. -/
def addRules {F : Type} (file : Option (List Char)) (fseek : Int) (calloc : UInt32 → UInt32 → Bool)
    (enabledPortMask ruleSize : UInt32) (parser : Parser F) : Option (Loaded F) :=
  match file with
  | none => none
  | some content =>
    let (aclNum, routeNum) := countLines (fileLines content)
    if 0 = routeNum then none
    else if fseek < 0 then none
    else if calloc aclNum ruleSize = false then none
    else if calloc routeNum ruleSize = false then none
    else
      match (fileLines content).foldlM (addLine parser enabledPortMask ruleSize) Pass.init with
      | none => none
      | some st => some ⟨st.acl, aclNum, st.route, routeNum, st.routeCnt⟩

/-! ## Lines of a kind -/

/-- The lines that begin with a character. -/
def linesOf (lead : Char) (lines : List (List Char)) : List (List Char) :=
  lines.filter (fun buff => buff.head? == some lead)

/-- The lines that the second pass does not skip. -/
def ruleLines (lines : List (List Char)) : List (List Char) :=
  lines.filter (fun buff => !isBypassLine buff)

theorem countLines_eq (lines : List (List Char)) : countLines lines =
    (UInt32.ofNat (linesOf ACL_LEAD_CHAR lines).length,
      UInt32.ofNat (linesOf ROUTE_LEAD_CHAR lines).length) := by
  induction lines using List.reverseRecOn with
  | nil => rfl
  | append_singleton lines buff ih =>
    have hsnoc : countLines (lines ++ [buff]) =
        if buff.head? = some ROUTE_LEAD_CHAR then ((countLines lines).1, (countLines lines).2 + 1)
        else if buff.head? = some ACL_LEAD_CHAR then
          ((countLines lines).1 + 1, (countLines lines).2)
        else countLines lines := by
      simp [countLines]
    rw [hsnoc, ih]
    by_cases hr : buff.head? = some ROUTE_LEAD_CHAR
    · simp [hr, linesOf, UInt32.ofNat_add, show ROUTE_LEAD_CHAR ≠ ACL_LEAD_CHAR by decide]
    · by_cases ha : buff.head? = some ACL_LEAD_CHAR
      · simp [ha, linesOf, UInt32.ofNat_add, show ACL_LEAD_CHAR ≠ ROUTE_LEAD_CHAR by decide]
      · simp [hr, ha, linesOf]

/-- The lines of a kind are none of those that are skipped. -/
theorem not_bypass {lead : Char} {buff : List Char} (hlead : lead ≠ COMMENT_LEAD_CHAR)
    (hspace : isSpace lead = false) (h : buff.head? = some lead) : isBypassLine buff = false := by
  obtain ⟨cs, rfl⟩ : ∃ cs, buff = lead :: cs := by
    cases buff with
    | nil => cases h
    | cons c cs =>
      obtain rfl := Option.some.inj h
      exact ⟨cs, rfl⟩
  simp [isBypassLine, hlead, hspace]

theorem linesOf_eq {lead : Char} (hlead : lead ≠ COMMENT_LEAD_CHAR)
    (hspace : isSpace lead = false) (lines : List (List Char)) :
    linesOf lead lines = linesOf lead (ruleLines lines) := by
  unfold linesOf ruleLines
  rw [List.filter_filter]
  apply List.filter_congr
  intro buff _
  by_cases h : buff.head? = some lead
  · simp [h, not_bypass hlead hspace h]
  · simp [h]

/-! ## What the second pass stores -/

/-- A line that is not skipped, with what the parser reads from it. -/
structure Entry (F : Type) where
  line : List Char
  route : Bool
  field : F
  read : Option UInt32

section Entries

variable {F : Type}

/-- The port of a route, before it is shifted. -/
def Entry.userdata (e : Entry F) : UInt32 := e.read.getD 0

/-- The entry is what the parser makes of its line. -/
structure Entry.Parsed (parser : Parser F) (e : Entry F) : Prop where
  lead : e.line.head? = some (if e.route then ROUTE_LEAD_CHAR else ACL_LEAD_CHAR)
  parse : parser e.line.tail e.route = some (e.field, e.read)

/-- The rule of an entry, the `k`-th of its kind and the `n`-th of all. -/
def Entry.rule (e : Entry F) (k n : ℕ) : AclRule F :=
  { categoryMask := -1
    priority := nextPriority (UInt32.ofNat n)
    userdata := if e.route then e.userdata + FWD_PORT_SHIFT
      else ACL_DENY_SIGNATURE + UInt32.ofNat k
    field := e.field }

/-- The entries of a kind, with their numbers among all. -/
def ofKind (route : Bool) (es : List (Entry F)) : List (Entry F × ℕ) :=
  es.zipIdx.filter (fun x => x.1.route == route)

/-- What is written for the entries of a kind. -/
def stored (ruleSize : UInt32) (route : Bool) (es : List (Entry F)) : List (ℕ × AclRule F) :=
  (ofKind route es).mapIdx fun k x => ((UInt32.ofNat k * ruleSize).toNat, x.1.rule k x.2)

theorem ofKind_snoc (route : Bool) (es : List (Entry F)) (e : Entry F) :
    ofKind route (es ++ [e]) =
      ofKind route es ++ if e.route = route then [(e, es.length)] else [] := by
  by_cases h : e.route = route
  · simp [ofKind, List.zipIdx_append, h]
  · simp [ofKind, List.zipIdx_append, h]

theorem stored_snoc (ruleSize : UInt32) (route : Bool) (es : List (Entry F)) (e : Entry F) :
    stored ruleSize route (es ++ [e]) = stored ruleSize route es ++
      if e.route = route then
        [((UInt32.ofNat (ofKind route es).length * ruleSize).toNat,
          e.rule (ofKind route es).length es.length)]
      else [] := by
  unfold stored
  rw [ofKind_snoc]
  split
  · rw [List.mapIdx_concat]
  · simp

/-- The state of the second pass after some entries. -/
def Pass.after (ruleSize : UInt32) (es : List (Entry F)) : Pass F :=
  { acl := stored ruleSize false es
    route := stored ruleSize true es
    aclCnt := UInt32.ofNat (ofKind false es).length
    routeCnt := UInt32.ofNat (ofKind true es).length
    totalNum := UInt32.ofNat es.length }

variable {parser : Parser F} {mask ruleSize : UInt32} {buff : List Char} {es : List (Entry F)}
  {st' : Pass F}

/-- The check of a route. -/
def PortAllowed (mask : UInt32) (e : Entry F) : Prop :=
  e.route = true → mask &&& (1 <<< e.userdata) ≠ 0

/-- **One line** is skipped or adds the entry that the parser makes of it. -/
theorem addLine_some (h : addLine parser mask ruleSize (Pass.after ruleSize es) buff = some st') :
    (isBypassLine buff = true ∧ st' = Pass.after ruleSize es) ∨
      ∃ e : Entry F, isBypassLine buff = false ∧ e.line = buff ∧ e.Parsed parser ∧
        PortAllowed mask e ∧ st' = Pass.after ruleSize (es ++ [e]) := by
  unfold addLine at h
  split at h
  · rename_i hskip
    exact Or.inl ⟨hskip, (Option.some.inj h).symm⟩
  · rename_i hskip
    have hskip : isBypassLine buff = false := by simpa using hskip
    split at h
    · rename_i hlead
      split at h
      · cases h
      · rename_i field read hparse
        dsimp only at h
        split at h
        · cases h
        · rename_i hport
          refine Or.inr ⟨⟨buff, true, field, read⟩, hskip, rfl, ⟨hlead, hparse⟩, fun _ => hport, ?_⟩
          rw [← Option.some.inj h]
          simp [Pass.after, stored_snoc, ofKind_snoc, Entry.rule, Entry.userdata, UInt32.ofNat_add]
    · split at h
      · rename_i hlead
        split at h
        · cases h
        · rename_i field read hparse
          refine Or.inr ⟨⟨buff, false, field, read⟩, hskip, rfl, ⟨hlead, hparse⟩, nofun, ?_⟩
          rw [← Option.some.inj h]
          simp [Pass.after, stored_snoc, ofKind_snoc, Entry.rule, UInt32.ofNat_add]
      · cases h

/-- **The second pass** stores the entries of the lines it does not skip. -/
theorem addLines_run {lines : List (List Char)}
    (h : lines.foldlM (addLine parser mask ruleSize) Pass.init = some st') :
    ∃ es : List (Entry F), es.map Entry.line = ruleLines lines ∧
      (∀ e ∈ es, e.Parsed parser ∧ PortAllowed mask e) ∧ st' = Pass.after ruleSize es := by
  refine foldlM_inv (I := fun lines st => ∃ es : List (Entry F),
    es.map Entry.line = ruleLines lines ∧ (∀ e ∈ es, e.Parsed parser ∧ PortAllowed mask e) ∧
      st = Pass.after ruleSize es) ⟨[], rfl, nofun, rfl⟩ ?_ lines st' h
  rintro lines buff _ st'' ⟨es, hlines, hall, rfl⟩ hstep
  rcases addLine_some hstep with ⟨hskip, rfl⟩ | ⟨e, hskip, rfl, hparsed, hport, rfl⟩
  · refine ⟨es, ?_, hall, rfl⟩
    simpa [ruleLines, hskip] using hlines
  · refine ⟨es ++ [e], ?_, ?_, rfl⟩
    · simp [ruleLines, hskip, hlines]
    · intro x hx
      rcases List.mem_append.mp hx with hx | hx
      · exact hall x hx
      · obtain rfl := List.mem_singleton.mp hx
        exact ⟨hparsed, hport⟩

/-- The character before the lines of a kind. -/
def leadOf (route : Bool) : Char := if route then ROUTE_LEAD_CHAR else ACL_LEAD_CHAR

theorem ofKind_entries (route : Bool) (es : List (Entry F)) :
    (ofKind route es).map Prod.fst = es.filter (fun e => e.route == route) := by
  have hzip : es.zipIdx.map Prod.fst = es := List.zipIdx_map_fst 0 es
  unfold ofKind
  conv_rhs => rw [← hzip, List.filter_map]
  rfl

/-- The entries of a kind are on the lines of that kind. -/
theorem ofKind_lines (route : Bool) (hes : ∀ e ∈ es, e.Parsed parser) :
    (ofKind route es).map (fun x => x.1.line) = linesOf (leadOf route) (es.map Entry.line) := by
  have hmap : (ofKind route es).map (fun x => x.1.line) =
      ((ofKind route es).map Prod.fst).map Entry.line := by simp
  rw [hmap, ofKind_entries, linesOf, List.filter_map]
  congr 1
  apply List.filter_congr
  intro e he
  have hlead := (hes e he).lead
  cases hr : e.route <;> cases route <;> simp [leadOf, hlead, hr] <;> decide

theorem linesOf_leadOf (route : Bool) (lines : List (List Char)) :
    linesOf (leadOf route) lines = linesOf (leadOf route) (ruleLines lines) := by
  cases route with
  | true => exact linesOf_eq (by decide) (by decide) lines
  | false => exact linesOf_eq (by decide) (by decide) lines

/-- **An accepted file**: both passes count the same lines. -/
theorem addRules_some {content : List Char} {fseek : Int} {calloc : UInt32 → UInt32 → Bool}
    {out : Loaded F}
    (h : addRules (some content) fseek calloc mask ruleSize parser = some out) :
    ∃ es : List (Entry F), es.map Entry.line = ruleLines (fileLines content) ∧
      (∀ e ∈ es, e.Parsed parser ∧ PortAllowed mask e) ∧
      (∀ route, (ofKind route es).map (fun x => x.1.line) =
        linesOf (leadOf route) (fileLines content)) ∧
      out = { acl := stored ruleSize false es, aclNum := UInt32.ofNat (ofKind false es).length
              route := stored ruleSize true es, routeNum := UInt32.ofNat (ofKind true es).length
              routeCnt := UInt32.ofNat (ofKind true es).length } := by
  unfold addRules at h
  dsimp only at h
  rw [countLines_eq] at h
  dsimp only at h
  split at h
  · cases h
  split at h
  · cases h
  split at h
  · cases h
  split at h
  · cases h
  split at h
  · cases h
  · rename_i st hrun
    obtain ⟨es, hlines, hall, rfl⟩ := addLines_run hrun
    have hkind : ∀ route, (ofKind route es).map (fun x => x.1.line) =
        linesOf (leadOf route) (fileLines content) := by
      intro route
      rw [ofKind_lines route (fun e he => (hall e he).1), hlines, ← linesOf_leadOf]
    have hlen : ∀ route, (linesOf (leadOf route) (fileLines content)).length =
        (ofKind route es).length := by
      intro route
      rw [← hkind route, List.length_map]
    refine ⟨es, hlines, hall, hkind, ?_⟩
    have hacl : (linesOf ACL_LEAD_CHAR (fileLines content)).length = (ofKind false es).length :=
      hlen false
    have hroute : (linesOf ROUTE_LEAD_CHAR (fileLines content)).length = (ofKind true es).length :=
      hlen true
    rw [← Option.some.inj h, hacl, hroute]
    rfl

end Entries

end QueueDpdk.Rules
