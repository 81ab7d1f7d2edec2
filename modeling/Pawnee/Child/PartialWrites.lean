import Pawnee.Foundation.ShortCounts
import Pawnee.Child.ContentType

/-!
# Partial writes

`write` may take fewer bytes than it is given.  `send_status` and `send_response`
look at most at the sign of what it returns, and never write the rest.  So the
client gets all of a part of the response exactly if no `write` of that part falls
short (`received_iff`), and all that is written exactly if none does
(`delivered_eq_iff`).
-/

namespace Pawnee

open CText Effects ShortCounts

/-! ## What is received -/

/-- A `write` of a part, with the number of bytes it takes. -/
def writeTo (part : Part) : ServerEvent → Option (Str × Nat)
  | ⟨.write p data, n⟩ => if p = part then some (data, (n : Int).toNat) else none
  | _ => none

/-- The `write`s of a part. -/
def writesTo (part : Part) (tr : List ServerEvent) : List (Str × Nat) := tr.filterMap (writeTo part)

/-- The bytes of a part that `write` has taken. -/
def received (part : Part) (tr : List ServerEvent) : Str := taken (writesTo part tr)

/-- A `write` of some bytes takes at least one, and not more than it is given. -/
def Posix (tr : List ServerEvent) : Prop :=
  ∀ part data (n : Int), (⟨.write part data, n⟩ : ServerEvent) ∈ tr → data ≠ [] →
    1 ≤ n ∧ n ≤ data.length

/-- No `write` of the part falls short. -/
def Whole (part : Part) (tr : List ServerEvent) : Prop :=
  ∀ data (n : Int), (⟨.write part data, n⟩ : ServerEvent) ∈ tr → data ≠ [] → n = data.length

/-- The data of a `write` of a part. -/
def partData (part : Part) : Call → Option Str
  | .write p data => if p = part then some data else none
  | _ => none

@[simp] theorem partData_write (part p : Part) (data : Str) :
    partData part (.write p data) = if p = part then some data else none := rfl

theorem seesWrites_partData (part : Part) : SeesWrites (partData part) := by
  intro e h
  cases e with
  | write p data => exact absurd rfl (h p data)
  | _ => rfl

theorem writeTo_fst (part : Part) (ev : ServerEvent) :
    (writeTo part ev).map Prod.fst = partData part ev.1 := by
  obtain ⟨e, n⟩ := ev
  cases e with
  | write p data =>
      simp only [writeTo, partData]
      split <;> rfl
  | _ => rfl

/-- What is offered are the data of the calls. -/
theorem offered_writesTo (part : Part) (tr : List ServerEvent) :
    offered (writesTo part tr) = (observed (partData part) tr).flatten := by
  rw [offered, writesTo, List.map_filterMap, observed, Prog.callsOf, List.filterMap_map]
  exact congrArg List.flatten (List.filterMap_congr fun ev _ => writeTo_fst part ev)

theorem mem_writesTo_iff {part : Part} {tr : List ServerEvent} {data : Str} {k : Nat} :
    (data, k) ∈ writesTo part tr ↔
      ∃ n : Int, (⟨.write part data, n⟩ : ServerEvent) ∈ tr ∧ n.toNat = k := by
  rw [writesTo, List.mem_filterMap]
  constructor
  · rintro ⟨⟨e, n⟩, hmem, hwrite⟩
    cases e with
    | write p data' =>
        simp only [writeTo] at hwrite
        split at hwrite
        · next hp =>
          subst hp
          cases hwrite
          exact ⟨n, hmem, rfl⟩
        · cases hwrite
    | _ => cases hwrite
  · rintro ⟨n, hmem, rfl⟩
    exact ⟨_, hmem, if_pos rfl⟩

/-- The bytes of a part are all received exactly if no `write` falls short. -/
theorem received_eq_offered_iff {part : Part} {tr : List ServerEvent} (hposix : Posix tr) :
    received part tr = (observed (partData part) tr).flatten ↔ Whole part tr := by
  rw [← offered_writesTo, received, taken_eq_offered_iff]
  constructor
  · intro h data n hmem hne
    have hle := h _ (mem_writesTo_iff.mpr ⟨n, hmem, rfl⟩)
    have hbound := hposix _ _ _ hmem hne
    simp only at hle
    omega
  · rintro h ⟨data, k⟩ hx
    obtain ⟨n, hmem, rfl⟩ := mem_writesTo_iff.mp hx
    by_cases hne : data = []
    · simp [hne]
    · rw [h _ _ hmem hne]
      exact le_of_eq rfl

/-! ## All that is written -/

/-- A `write`, with the number of bytes it takes. -/
def writeOf : ServerEvent → Option (Str × Nat)
  | ⟨.write _ data, n⟩ => some (data, (n : Int).toNat)
  | _ => none

/-- The bytes that are taken of all that is written: what the client is given. -/
def delivered (tr : List ServerEvent) : Str := taken (tr.filterMap writeOf)

/-- No `write` falls short. -/
def TakesAll (tr : List ServerEvent) : Prop := ∀ part, Whole part tr

theorem takesAll_append {tr tr' : List ServerEvent} :
    TakesAll (tr ++ tr') ↔ TakesAll tr ∧ TakesAll tr' := by
  constructor
  · exact fun h => ⟨fun part data n hmem => h part data n (List.mem_append_left _ hmem),
      fun part data n hmem => h part data n (List.mem_append_right _ hmem)⟩
  · rintro ⟨h, h'⟩ part data n hmem
    rcases List.mem_append.mp hmem with hmem | hmem
    · exact h part data n hmem
    · exact h' part data n hmem

/-- The header section and the body of a response, by its code, the arguments
`message_body` and `size`. -/
inductive SentAs (env : Env) (q : Request) : Int → Str → Int → Str → Str → Prop
  | message {code : Int} {message : Str} : code ≠ 200 → IsInt32 message.length →
      SentAs env q code message message.length (messageHead env q code message.length) message
  | file {r mime : Str} {keys : SiteKeys} {vhost : VhostConfig} {file : OpenFile} {size : Int} :
      selectedSite env q.headers = some keys → keys.vhost = some vhost →
      openResult env (fullPath vhost.root.text r) = some file → IsInt32 size →
      mimeType env r = .ok mime → (fileLines env q file size mime).length ≤ headerSize →
      SentAs env q 200 r size (fileHead env q file size mime) file.content

/-- The text of a part of a response. -/
def partText (q : Request) (code : Int) (reasonPhrase header body : Str) : Part → Str
  | .status c => if c = code then statusLine q.major q.minor code reasonPhrase else []
  | .header => header
  | .body => if q.method = .head then [] else body

section

variable {env : Env} {q : Request} {store : HttpHeaders} {code size : Int}
  {reasonPhrase message header body : Str}

theorem offered_message (part : Part) :
    ((messageCalls env q code reasonPhrase message).filterMap (partData part)).flatten =
      partText q code reasonPhrase (messageHead env q code message.length) message part := by
  unfold messageCalls
  cases part with
  | status c =>
      by_cases hc : code = c
      · subst hc
        split <;> simp [partData, partText]
      · split <;> simp [partData, partText, hc, Ne.symm hc]
  | header => split <;> simp [partData, partText]
  | body => split <;> simp [partData, partText, *]

theorem offered_file {mime : Str} {file : OpenFile} {path : Str} (part : Part) :
    ((.write (.status 200) (statusLine q.major q.minor 200 reasonPhrase) ::
        (reopenCalls env q path ++ fileCalls env q file size mime)).filterMap
          (partData part)).flatten =
      partText q 200 reasonPhrase (fileHead env q file size mime) file.content part := by
  have hreopen := filterMap_reopenCalls (seesWrites_partData part).ignoresLookups env q path
  rw [List.filterMap_cons, List.filterMap_append, hreopen, List.nil_append]
  cases part with
  | status c =>
      rw [filterMap_fileCalls fun _ => rfl]
      by_cases hc : c = 200
      · simp [partText, hc]
      · simp [partText, hc, Ne.symm hc]
  | header =>
      rw [filterMap_fileCalls fun _ => rfl]
      simp [partText]
  | body =>
      have hblocks := flatten_blocks (f := partData .body) (fun _ => rfl) file.content
      by_cases hm : q.method = .head
      · simp [fileCalls, partText, hm]
      · simp only [fileCalls, partText, if_neg hm, partData_write, reduceCtorEq, if_false,
          List.filterMap_cons]
        exact hblocks

/-- The parts that are written are those of the response. -/
theorem SentAs.offered (hh : Holds store q.headers)
    (hstatus : (statusLine q.major q.minor code reasonPhrase).length < statusLineSize)
    (hsent : SentAs env q code message size header body) {tr : List ServerEvent}
    {out : Except Halt HttpRequest}
    (h : Prog.Runs (sendResponse env (q.filled store) code reasonPhrase message size) tr out)
    (part : Part) :
    (observed (partData part) tr).flatten = partText q code reasonPhrase header body part := by
  cases hsent with
  | message hcode hsize =>
      rw [observed, (runs_sendResponse_message hcode hstatus hsize h).2, offered_message]
  | @file r mime keys vhost file size hsite hvhost hfile hsize hmime hfits =>
      have hroot := (vhost_root_bounded (selectedSite_bounded hsite) hvhost).1
      have hcalls := (runs_sendResponse_file hh hmime hsite hvhost hroot hfile hsize hstatus
        hfits h).2
      rw [observed, hcalls, offered_file]

/-- A part of the response is received exactly if no `write` of it falls short. -/
theorem received_iff (hh : Holds store q.headers)
    (hstatus : (statusLine q.major q.minor code reasonPhrase).length < statusLineSize)
    (hsent : SentAs env q code message size header body) {tr : List ServerEvent}
    {out : Except Halt HttpRequest}
    (h : Prog.Runs (sendResponse env (q.filled store) code reasonPhrase message size) tr out)
    (hposix : Posix tr) (part : Part) :
    received part tr = partText q code reasonPhrase header body part ↔ Whole part tr := by
  rw [← hsent.offered hh hstatus h part]
  exact received_eq_offered_iff hposix

end

/-- Answers under which every `write` takes one byte. -/
def oneByte : (e : Call) → Answer e
  | .write _ _ => (1 : Int)
  | e => kindAnswer e

theorem posix_oneByte {α : Type} (p : Server α) : Posix (Prog.play oneByte p).1 := by
  intro part data n hmem hne
  have hn : n = 1 := Prog.answer_of_mem_play hmem
  have hpos := List.length_pos_of_ne_nil hne
  omega

/-- The file "hi" of the site `a`. -/
def hiMachine : Env := machine siteFile [("/w/x.html", "hi")]

/-- The header section of the file. -/
def hiHead : Str := fileHead hiMachine siteRequest ⟨"hi".toList, 0⟩ 2 "text/html".toList

theorem sentAs_hi : SentAs hiMachine siteRequest 200 "x.html".toList 2 hiHead "hi".toList := by
  have hsize : IsInt32 2 := ⟨by decide, by decide⟩
  have htype : (contentTypeHeader "text/html".toList).length = 40 := by decide
  have hlines := fileLines_length_le hiMachine siteRequest ⟨"hi".toList, 0⟩ hsize
    "text/html".toList
  rw [htype] at hlines
  exact .file (siteRequest_selects _) siteFile_vhost (by decide) hsize rfl
    (hlines.trans (by decide))

/-- The response with the file "hi", when every `write` takes one byte. -/
def hiRun : List ServerEvent × Except Halt HttpRequest :=
  Prog.play oneByte (sendResponse hiMachine (siteRequest.filled siteStore) 200 "OK".toList
    "x.html".toList 2)

theorem received_iff_hi :
    received .body hiRun.1 = partText siteRequest 200 "OK".toList hiHead "hi".toList .body ↔
      Whole .body hiRun.1 :=
  received_iff (q := siteRequest) holds_siteStore (by decide) sentAs_hi
    (Prog.play_runs oneByte _) (posix_oneByte _) .body

/-- The second byte of the file is lost. -/
theorem not_received_hi :
    Prog.Runs (sendResponse hiMachine (siteRequest.filled siteStore) 200 "OK".toList
        "x.html".toList 2) hiRun.1 hiRun.2 ∧
      Posix hiRun.1 ∧ received .body hiRun.1 ≠ "hi".toList := by
  refine ⟨Prog.play_runs oneByte _, posix_oneByte _, ?_⟩
  decide +kernel

end Pawnee
