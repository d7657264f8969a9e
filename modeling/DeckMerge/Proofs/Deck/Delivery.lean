import DeckMerge.Deck.Delivery
import DeckMerge.Proofs.Sequence
import Mathlib.Logic.Function.Basic

/-!
What a delivery does. The octets of a rendering are handed over once or not at all, one event tells
which, and the files are what these deeds make of them.
-/

namespace DeckMerge

namespace FileTree

variable {t t' : FileTree} {p : Path} {bs : Bytes}

def contents (t : FileTree) (p : Path) : Option Bytes := t.files.lookup p

theorem contents_makeFolder (h : t.makeFolder p = .ok t') : t'.contents = t.contents := by
  rw [makeFolder] at h
  split at h
  · cases h
  · split at h
    · cases h
    · obtain rfl := Except.ok.inj h
      rfl

theorem contents_put (t : FileTree) (p : Path) (bs : Bytes) :
    (t.put p bs).contents = Function.update t.contents p (some bs) := by
  have hfilter : ∀ (fs : List (Path × Bytes)) (q : Path), q ≠ p →
      (fs.filter (·.1 ≠ p)).lookup q = fs.lookup q := by
    intro fs q hq
    induction fs with
    | nil => rfl
    | cons f fs ih =>
      obtain ⟨p', bs'⟩ := f
      by_cases hp : p' = p
      · have hne : (q == p') = false := by simpa [hp] using hq
        rw [List.filter_cons_of_neg (by simpa using hp), ih, List.lookup_cons, hne]
      · rw [List.filter_cons_of_pos (by simpa using hp), List.lookup_cons, List.lookup_cons, ih]
  funext q
  by_cases hq : q = p
  · simp [contents, put, hq]
  · have hne : (q == p) = false := by simpa using hq
    simp only [contents, put, List.lookup_cons, hne, Function.update_of_ne hq]
    exact hfilter t.files q hq

theorem contents_write (h : t.write p bs = .ok t') :
    t'.contents = Function.update t.contents p (some bs) := by
  obtain ⟨s, hs, h⟩ := Sequence.bind_eq_ok_iff.1 h
  split at h
  · cases h
  · obtain rfl := Except.ok.inj h
    rw [contents_put, contents_makeFolder hs]

end FileTree

namespace Deck

variable {o : Order} {time : Text} {files files' : FileTree} {d : Delivery} {deeds : List Deed}
  {bytes : Bytes}

/-- The contents of files after a deed. -/
def Deed.effect (contents : Path → Option Bytes) : Deed → Path → Option Bytes
  | .taken _ | .refused _ => contents
  | .written p bs => Function.update contents p (some bs)
  | .logged e => Function.update contents eventFile
      (some ((contents eventFile).getD [] ++ Text.utf8 (EventLog.append [] e)))

/-- The octets that a deed delivers. -/
def Deed.delivered? : Deed → Option Bytes
  | .taken bs | .written _ bs => some bs
  | .refused _ | .logged _ => none

namespace Delivery

/-- The octets that were delivered, to a receiver or to a file. -/
def delivered (d : Delivery) : List Bytes := d.deeds.filterMap Deed.delivered?

/-- The octets with which receivers were called. -/
def offered (d : Delivery) : List Bytes :=
  d.deeds.filterMap fun deed => match deed with
    | .taken bs | .refused bs => some bs
    | .written _ _ | .logged _ => none

end Delivery

theorem contents_logEvent {e : Event} (h : logEvent files e = .ok files') :
    files'.contents = Deed.effect files.contents (.logged e) :=
  FileTree.contents_write h

namespace Order

/-- How octets may be handed over: to the receiver there is, or to a file if there is none. -/
inductive HandsOver (o : Order) (bytes : Bytes) : List Deed → Option Path → Prop
  | taken : o.receiver = .accepting → HandsOver o bytes [.taken bytes] none
  | written : o.receiver = .file → HandsOver o bytes [.written o.outputPath bytes] (some o.outputPath)

/-- How it may fail to hand them over: the receiver fails, or nothing is written. -/
inductive Keeps (o : Order) (bytes : Bytes) : List Deed → Prop
  | refused {words : Text} : o.receiver = .failing words → Keeps o bytes [.refused bytes]
  | unwritten : o.receiver = .file → Keeps o bytes []

theorem handOver_ok {output : Option Path} (h : o.handOver files bytes = (deeds, .ok (files', output))) :
    o.HandsOver bytes deeds output ∧ files'.contents = deeds.foldl Deed.effect files.contents := by
  rw [handOver] at h
  split at h
  case h_1 hreceiver =>
    obtain ⟨rfl, hresult⟩ := Prod.mk.inj h
    obtain ⟨rfl, rfl⟩ := Prod.mk.inj (Except.ok.inj hresult)
    exact ⟨.taken hreceiver, rfl⟩
  case h_2 => simp at h
  case h_3 hreceiver =>
    split at h
    case h_2 => simp at h
    case h_1 files'' hsave =>
      obtain ⟨rfl, hresult⟩ := Prod.mk.inj h
      obtain ⟨rfl, rfl⟩ := Prod.mk.inj (Except.ok.inj hresult)
      refine ⟨.written hreceiver, ?_⟩
      rw [Package.saveBytes] at hsave
      split at hsave
      case h_2 => cases hsave
      case h_1 hwrite =>
        obtain rfl := Except.ok.inj hsave
        exact FileTree.contents_write hwrite

theorem handOver_error {r : Report} (h : o.handOver files bytes = (deeds, .error r)) :
    o.Keeps bytes deeds := by
  rw [handOver] at h
  split at h
  case h_1 => simp at h
  case h_2 hreceiver =>
    obtain ⟨rfl, -⟩ := Prod.mk.inj h
    exact .refused hreceiver
  case h_3 hreceiver =>
    split at h
    case h_1 => simp at h
    case h_2 =>
      obtain ⟨rfl, -⟩ := Prod.mk.inj h
      exact .unwritten hreceiver

/-- How a delivery may end: with the octets of the rendering handed over, or with a report. -/
inductive Ends (o : Order) (time : Text) (files : FileTree) : Delivery → Prop
  | completed {r : Rendering} {done : List Deed} {output : Option Path} {files' : FileTree} :
    o.render files = .ok r → o.HandsOver r.bytes done output →
    files'.contents = (done ++ [Deed.logged (o.completed time output r)]).foldl Deed.effect files.contents →
    Ends o time files ⟨.ok r, output, files', done ++ [.logged (o.completed time output r)]⟩
  | unrendered {report : Report} {files' : FileTree} : o.render files = .error (.report report) →
    files'.contents = Deed.effect files.contents (.logged (o.failed time report)) →
    Ends o time files ⟨.error report, none, files', [.logged (o.failed time report)]⟩
  | undelivered {r : Rendering} {done : List Deed} {report : Report} {files' : FileTree} :
    o.render files = .ok r → o.Keeps r.bytes done →
    files'.contents = Deed.effect files.contents (.logged (o.failed time report)) →
    Ends o time files ⟨.error report, none, files', done ++ [.logged (o.failed time report)]⟩

theorem conclude_eq_ok {e : Event} {result : Except Report Rendering} {output : Option Path}
    (h : conclude files deeds e result output = .ok d) :
    ∃ files', d = ⟨result, output, files', deeds ++ [.logged e]⟩ ∧
      files'.contents = Deed.effect files.contents (.logged e) := by
  obtain ⟨files', hlog, h⟩ := Sequence.bind_eq_ok_iff.1 h
  exact ⟨files', (Except.ok.inj h).symm, contents_logEvent hlog⟩

theorem ends_of_deliver (h : o.deliver time files = .ok d) :
    ∃ ready, files.makeFolder logFolder = .ok ready ∧ o.Ends time ready d := by
  obtain ⟨ready, hready, h⟩ := Sequence.bind_eq_ok_iff.1 h
  refine ⟨ready, hready, ?_⟩
  split at h
  case h_1 report hrender =>
    obtain ⟨files', rfl, hfiles⟩ := conclude_eq_ok h
    exact .unrendered hrender hfiles
  case h_2 => cases h
  case h_3 => cases h
  case h_4 r hrender =>
    split at h
    case h_1 deeds report hkept =>
      obtain ⟨files', rfl, hfiles⟩ := conclude_eq_ok h
      exact .undelivered hrender (handOver_error hkept) hfiles
    case h_2 deeds written output hhanded =>
      obtain ⟨files', rfl, hfiles⟩ := conclude_eq_ok h
      obtain ⟨hhands, hwritten⟩ := handOver_ok hhanded
      refine .completed hrender hhands ?_
      rw [hfiles, hwritten, List.foldl_append]
      rfl

/-! ### The account of a delivery -/

/-- The counts that the event of a completed delivery has. -/
def counts (r : Receipt) : List (Text × Nat) :=
  [("pages", r.pages), ("records_rendered", r.rendered), ("records_truncated", r.truncated),
    ("injection_fallbacks", r.fallbacks)]

/-- The octets of a rendering were delivered once, to the receiver or to the file of the order; event and
receipt tell its counts. -/
structure Completed (o : Order) (r : Rendering) (d : Delivery) : Prop where
  delivered_eq : d.delivered = [r.bytes]
  handed : d.offered = [r.bytes] ∧ d.output = none ∨ d.offered = [] ∧ d.output = some o.outputPath
  event : ∃ e, d.events = [e] ∧ e.type = "render_completed" ∧
    ∀ count ∈ counts d.receipt, Fields.get? e.extra count.1 = some (.int count.2)
  receipt_eq : d.receipt = ⟨true, d.output, none, r.pages, r.rendered, r.truncated, r.fallbacks,
    r.residuals, r.written, r.bytes.length⟩

/-- Nothing was delivered; event and receipt tell the error, and all counts are zero. -/
structure Failed (o : Order) (files : FileTree) (d : Delivery) : Prop where
  delivered_eq : d.delivered = []
  offered : d.offered = [] ∨ ∃ r, o.render files = .ok r ∧ d.offered = [r.bytes]
  event : ∃ e error, d.events = [e] ∧ e.type = "render_failed" ∧ d.receipt = .failed error ∧
    Fields.get? e.extra "error" = some (.text error)

theorem HandsOver.delivered {r : Rendering} {output : Option Path} (h : o.HandsOver r.bytes deeds output)
    (time : Text) (files : FileTree) :
    o.Completed r ⟨.ok r, output, files, deeds ++ [.logged (o.completed time output r)]⟩ := by
  cases h with
  | taken =>
    refine ⟨rfl, .inl ⟨rfl, rfl⟩, ⟨_, rfl, rfl, ?_⟩, rfl⟩
    simp only [counts, List.forall_mem_cons]
    exact ⟨rfl, rfl, rfl, rfl, by simp⟩
  | written =>
    refine ⟨rfl, .inr ⟨rfl, rfl⟩, ⟨_, rfl, rfl, ?_⟩, rfl⟩
    simp only [counts, List.forall_mem_cons]
    exact ⟨rfl, rfl, rfl, rfl, by simp⟩

/-- A delivery that returns has logged one event. It succeeds exactly if the octets of the rendering were
delivered once, and otherwise nothing was delivered; the files are what its deeds have made of them. -/
theorem deliver_accounted (h : o.deliver time files = .ok d) :
    ∃ ready, files.makeFolder logFolder = .ok ready ∧
      d.files.contents = d.deeds.foldl Deed.effect files.contents ∧
      d.events.length = 1 ∧
      (d.receipt.success ↔ ∃ r, o.render ready = .ok r ∧ d.delivered = [r.bytes]) ∧
      (d.receipt.success → ∃ r, o.render ready = .ok r ∧ o.Completed r d) ∧
      (¬ d.receipt.success → o.Failed ready d) := by
  obtain ⟨ready, hready, hends⟩ := ends_of_deliver h
  refine ⟨ready, hready, ?_⟩
  rw [← FileTree.contents_makeFolder hready]
  cases hends with
  | @completed r done output files' hrender hhands hfiles =>
    have hcompleted := hhands.delivered time files'
    obtain ⟨e, hevents, -⟩ := hcompleted.event
    exact ⟨hfiles, by rw [hevents]; rfl, iff_of_true rfl ⟨r, hrender, hcompleted.delivered_eq⟩,
      fun _ => ⟨r, hrender, hcompleted⟩, fun hfailed => absurd rfl hfailed⟩
  | @unrendered report files' hrender hfiles =>
    have hunsuccessful : ¬ (Receipt.failed report.text).success := Bool.false_ne_true
    refine ⟨hfiles, rfl, iff_of_false hunsuccessful ?_, fun hsuccess => absurd hsuccess hunsuccessful,
      fun _ => ⟨rfl, .inl rfl, _, _, rfl, rfl, rfl, rfl⟩⟩
    rintro ⟨r, hr, -⟩
    cases hrender.symm.trans hr
  | @undelivered r done report files' hrender hkept hfiles =>
    have hunsuccessful : ¬ (Receipt.failed report.text).success := Bool.false_ne_true
    cases hkept with
    | refused =>
      refine ⟨hfiles, rfl, iff_of_false hunsuccessful ?_, fun hsuccess => absurd hsuccess hunsuccessful,
        fun _ => ⟨rfl, .inr ⟨r, hrender, rfl⟩, _, _, rfl, rfl, rfl, rfl⟩⟩
      rintro ⟨r', -, hdelivered⟩
      cases hdelivered
    | unwritten =>
      refine ⟨hfiles, rfl, iff_of_false hunsuccessful ?_, fun hsuccess => absurd hsuccess hunsuccessful,
        fun _ => ⟨rfl, .inl rfl, _, _, rfl, rfl, rfl, rfl⟩⟩
      rintro ⟨r', -, hdelivered⟩
      cases hdelivered

/-! ### A deck of one stored part -/

/-- A package of one part that holds no placeholder. -/
def storedPart : Package := ⟨Package.memory, [⟨"a", .first, .stored, 0, 3, Text.utf8 "<a/>"⟩], [], by decide⟩

/-- An order of one record, to be handed to a receiver. -/
def storedOrder (receiver : Receiver) : Order where
  template := .ofText "template.pptx"
  records := [⟨"Ada", [], []⟩]
  config := { Config.default with parts := ["a"] }
  output := none
  receiver := receiver
  deckName := none

def storedFiles : FileTree := FileTree.empty.put (.ofText "template.pptx") storedPart.toBytes

theorem deliver_accounted_refused : ∃ d, (storedOrder (.failing "full")).deliver "now" storedFiles = .ok d ∧
    d.offered.length = 1 ∧ ¬ d.receipt.success ∧ d.delivered = [] ∧ d.events.length = 1 := by
  have hrun : ((storedOrder (.failing "full")).deliver "now" storedFiles).toOption.map
      (fun d => (d.offered.length, d.receipt.success)) = some (1, false) := by decide +kernel
  cases hdeliver : (storedOrder (.failing "full")).deliver "now" storedFiles with
  | error => rw [hdeliver] at hrun; cases hrun
  | ok d =>
    rw [hdeliver] at hrun
    obtain ⟨hoffered, hsuccess⟩ := Prod.mk.inj (Option.some.inj hrun)
    obtain ⟨ready, -, -, hevents, -, -, hfailed⟩ := deliver_accounted hdeliver
    have hunsuccessful : ¬ d.receipt.success := by simp [hsuccess]
    exact ⟨d, rfl, hoffered, hunsuccessful, (hfailed hunsuccessful).delivered_eq, hevents⟩

end Order

end Deck

end DeckMerge
