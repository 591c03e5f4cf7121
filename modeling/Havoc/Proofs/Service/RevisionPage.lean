import Havoc.Proofs.Http.RawText
import Havoc.Proofs.Service.FaultLayer

/-! # The page of the revision that runs

    The page shows a revision in a colour that is made of it.  The revision comes from the
    document of a task or from the environment, through two extractors that may give any text,
    and it stands in the page as it is.

    The route: the page is woven of four fixed pieces with the colour, the message and the time
    between them (`revisionPage_eq`).  The colour and the time are their own escaped texts, and
    in front of the piece that ends the paragraph the raw message is no markup exactly if it
    opens no tag (`markup_weave_revision`).  The main theorem is
    `revision_pages_share_markup_unless_tagged`. -/

namespace Havoc.Service

open Havoc.Http Havoc.Json

/-- The pieces of the page that are the same whatever runs. -/
def revisionFrame : List String :=
  ["<html>\n<head><title>Revision Color</title></head>\n<body style=\"background-color:",
    ";\">\n<h1>Revision Color</h1>\n<p>", "</p>\n<p>requested_at: ", "</p>\n</body>\n</html>\n"]

/-- The colour of what runs, and what the page tells about it. -/
def revisionTexts : Option String → String × String
  | some revision => (revisionColor revision, "Revision: " ++ revision)
  | none => ("#000000", "ECS or EKS metadata unavailable")

/-- A call that asked for the revision is answered with a page once the task has been asked. -/
def State.Reveals (s : State) (now : Instant) (number : Nat) (task : TaskFinding)
    (html : String) : Prop :=
  (s.handle now (.told number (.revision task))).1.answered =
    ⟨number, .ok (.page html), ⟨200, "text/html; charset=utf-8", html⟩⟩ :: s.answered

variable {s : State} {now : Instant} {c : Call} {task : TaskFinding} {e : Environment}
  {revision : Option String} {color message : String} {time : Moment}

/-! ## The texts of the page -/

theorem revisionPage_eq (task : TaskFinding) (e : Environment) (time : Moment) :
    revisionPage task e time = weave revisionFrame
      [(revisionTexts (revision? task e)).1, (revisionTexts (revision? task e)).2,
        time.precise] := by
  have hhead :
      "<html>\n<head><title>Revision Color</title></head>\n<body style=\"background-color:" =
        "<html>\n<head><title>" ++ ("Revision Color" ++
          "</title></head>\n<body style=\"background-color:") := rfl
  have hbody : ";\">\n<h1>Revision Color</h1>\n<p>" =
      ";\">\n<h1>" ++ ("Revision Color" ++ ("</h1>\n" ++ "<p>")) := rfl
  have htime : "</p>\n<p>requested_at: " =
      "</p>" ++ ("\n" ++ ("<p>" ++ "requested_at: ")) := by decide
  have hend : "</p>\n</body>\n</html>\n" = "</p>" ++ "\n</body>\n</html>\n" := by decide
  unfold revisionPage layout
  cases revision? task e <;>
    simp only [revisionTexts, revisionFrame, weave, paragraph, String.join_cons, String.join_nil,
      String.append_assoc, String.append_empty, hhead, hbody, htime, hend]

/-- A colour is written with digits and letters behind its mark. -/
theorem escape_colorText (n : Nat) : escape (colorText n) = colorText n := by
  rw [escape_eq_self_iff, colorText, String.toList_ofList, List.forall_mem_cons]
  refine ⟨by decide, fun c hc => ?_⟩
  obtain ⟨digit, hdigit, rfl⟩ := List.mem_map.mp hc
  have hall : ∀ d < 16, (Nat.digitChar d).toUpper ∉ ['&', '<', '>', '"', '\''] := by decide
  rcases List.mem_append.mp hdigit with hzero | hdigit
  · rw [List.eq_of_mem_replicate hzero]
    decide
  · obtain ⟨d, hd, rfl⟩ := Number.exists_digit_of_mem_hex hdigit
    exact hall d hd

theorem escape_color (revision : Option String) :
    escape (revisionTexts revision).1 = (revisionTexts revision).1 := by
  cases revision with
  | none => decide
  | some r => exact escape_colorText _

theorem escape_precise (time : Moment) : escape time.precise = time.precise :=
  escape_of_figures (Figures.precise time)

/-- What the page tells holds just the marks of the revision. -/
theorem forall_mem_message {marks : List Char}
    (hplain : ∀ c ∈ marks, c ∈ ['&', '<', '>', '"', '\'']) :
    (∀ c ∈ (revisionTexts revision).2.toList, c ∉ marks) ↔
      ∀ r, revision = some r → ∀ c ∈ r.toList, c ∉ marks := by
  cases revision with
  | none =>
      refine iff_of_true (fun c hc hmark => ?_) nofun
      have hall : ∀ c ∈ "ECS or EKS metadata unavailable".toList,
          c ∉ ['&', '<', '>', '"', '\''] := escape_eq_self_iff.mp rfl
      exact hall c hc (hplain c hmark)
  | some r =>
      have hlabel : ∀ c ∈ "Revision: ".toList, c ∉ ['&', '<', '>', '"', '\''] :=
        escape_eq_self_iff.mp rfl
      show (∀ c ∈ ("Revision: " ++ r).toList, c ∉ marks) ↔ _
      rw [String.toList_append, List.forall_mem_append,
        and_iff_right fun c hc hmark => hlabel c hc (hplain c hmark)]
      exact ⟨fun h _ heq => Option.some.inj heq ▸ h, fun h => h r rfl⟩

/-! ## The markup of the page -/

/-- The pieces in front of the message. -/
def headFrame : List String :=
  ["<html>\n<head><title>Revision Color</title></head>\n<body style=\"background-color:",
    ";\">\n<h1>Revision Color</h1>\n<p>"]

/-- The pieces behind the paragraph of the message. -/
def tailFrame : List String := ["\n<p>requested_at: ", "</p>\n</body>\n</html>\n"]

/-- The page in front of its message. -/
def beforeMessage (color : String) : String := weave headFrame ([color].map escape)

/-- The page behind the tag that ends the paragraph of its message. -/
def afterParagraph (time : Moment) : String := weave tailFrame ([time.precise].map escape)

/-- The page behind its message. -/
def afterMessage (time : Moment) : String := "</p>" ++ afterParagraph time

/-- The pieces of the page without its message. -/
def joinedFrame : List String :=
  ["<html>\n<head><title>Revision Color</title></head>\n<body style=\"background-color:",
    ";\">\n<h1>Revision Color</h1>\n<p>" ++ "</p>\n<p>requested_at: ",
    "</p>\n</body>\n</html>\n"]

/-- The pieces leave room for texts, and outside of the message they end outside of tags. -/
theorem frames_shelter :
    (Cursor.text.shelters headFrame = true ∧ (markup (String.join headFrame)).1 = .text) ∧
      (Cursor.text.shelters tailFrame = true ∧ (markup (String.join tailFrame)).1 = .text) ∧
      Cursor.text.shelters joinedFrame = true := by
  -- texts that are given by their characters need not be taken apart first
  show (Cursor.text.shelters [String.ofList _, String.ofList _] = true ∧
      (Cursor.text.reads (String.join [String.ofList _, String.ofList _]).toList).1 = .text) ∧
    (Cursor.text.shelters [String.ofList _, String.ofList _] = true ∧
      (Cursor.text.reads (String.join [String.ofList _, String.ofList _]).toList).1 = .text) ∧
    Cursor.text.shelters
      [String.ofList _, String.ofList _ ++ String.ofList _, String.ofList _] = true
  simp only [Cursor.shelters, String.join_cons, String.join_nil, String.toList_append,
    String.toList_ofList]
  decide +kernel

theorem markup_beforeMessage (color : String) : (markup (beforeMessage color)).1 = .text := by
  rw [beforeMessage, markup_weave frames_shelter.1.1]
  exact frames_shelter.1.2

theorem afterMessage_eq (time : Moment) :
    (afterMessage time).toList = Cursor.closing "/p".toList (afterParagraph time).toList := by
  rw [afterMessage, String.toList_append]
  rfl

theorem closes_afterParagraph (time : Moment) :
    Cursor.Closes "/p".toList (afterParagraph time).toList := by
  refine ⟨List.forall_mem_cons.mpr ⟨by decide, List.forall_mem_singleton.mpr (by decide)⟩, ?_, ?_⟩
  · have hparts : (afterParagraph time).toList = "\n<p>requested_at: ".toList ++
        (time.precise.toList ++ "</p>\n</body>\n</html>\n".toList) := by
      show (_ ++ escape time.precise ++ String.join _).toList = _
      rw [escape_precise, String.toList_append, String.toList_append, List.append_assoc]
      rfl
    have hnone : ∀ quote ∈ ['"', '\''], quote ∉ (afterParagraph time).toList := by
      intro quote hquote hmem
      have hfixed : ∀ c ∈ ['"', '\''], isFigure c = false ∧ c ∉ "\n<p>requested_at: ".toList ∧
          c ∉ "</p>\n</body>\n</html>\n".toList :=
        List.forall_mem_cons.mpr ⟨by decide, List.forall_mem_singleton.mpr (by decide)⟩
      obtain ⟨hfigure, hfront, hback⟩ := hfixed quote hquote
      rw [hparts, List.mem_append, List.mem_append] at hmem
      rcases hmem with hmem | hmem | hmem
      · exact hfront hmem
      · exact Bool.false_ne_true (hfigure.symm.trans (Figures.precise time quote hmem))
      · exact hback hmem
    exact ⟨hnone _ (by decide), hnone _ (by decide)⟩
  · show (markup (afterParagraph time)).1 = .text
    rw [afterParagraph, markup_weave frames_shelter.2.1.1]
    exact frames_shelter.2.1.2

theorem afterMessage_eq_weave (time : Moment) :
    afterMessage time = weave ["</p>\n<p>requested_at: ", "</p>\n</body>\n</html>\n"]
      ([time.precise].map escape) := by
  have hfirst : "</p>\n<p>requested_at: " = "</p>" ++ "\n<p>requested_at: " := by decide
  simp only [afterMessage, afterParagraph, tailFrame, hfirst, List.map_cons, List.map_nil, weave,
    String.append_assoc]

theorem weave_revisionFrame (hcolor : escape color = color) (message : String) (time : Moment) :
    weave revisionFrame [color, message, time.precise] =
      beforeMessage color ++ (message ++ afterMessage time) := by
  have hprecise := escape_precise time
  simp only [revisionFrame, beforeMessage, headFrame, afterMessage_eq_weave, weave, List.map_cons,
    List.map_nil, hcolor, hprecise, String.join_cons, String.join_nil, String.append_assoc,
    String.append_empty]

/-- Without its message the page has the tags of its frame. -/
theorem markup_frame (color : String) (time : Moment) :
    markup (beforeMessage color ++ afterMessage time) = markup (String.join revisionFrame) := by
  have hwoven : beforeMessage color ++ afterMessage time =
      weave joinedFrame ([color, time.precise].map escape) := by
    simp only [joinedFrame, beforeMessage, headFrame, afterMessage_eq_weave, weave, List.map_cons,
      List.map_nil, String.join_cons, String.join_nil, String.append_assoc, String.append_empty]
  rw [hwoven, markup_weave frames_shelter.2.2]
  simp only [joinedFrame, revisionFrame, String.join_cons, String.append_assoc]

/-- The page has the tags of its frame exactly if its message opens none. -/
theorem markup_weave_revision (hcolor : escape color = color) :
    markup (weave revisionFrame [color, message, time.precise]) =
        markup (String.join revisionFrame) ↔ '<' ∉ message.toList := by
  rw [weave_revisionFrame hcolor, ← markup_frame color time]
  exact markup_raw_iff (markup_beforeMessage color) (afterMessage_eq time)
    (closes_afterParagraph time)

/-- The page escapes its texts, as far as they need it, exactly if the revision holds no mark. -/
theorem weave_escaped_iff (hcolor : escape color = color) :
    weave revisionFrame [color, message, time.precise] =
        weave revisionFrame ([color, message, time.precise].map escape) ↔
      ∀ c ∈ message.toList, c ∉ ['&', '<', '>', '"', '\''] := by
  have hwritten : weave revisionFrame ([color, message, time.precise].map escape) =
      beforeMessage color ++ (escape message ++ afterMessage time) := by
    rw [← weave_revisionFrame hcolor, List.map_cons, List.map_cons, List.map_cons, List.map_nil,
      hcolor, escape_precise]
  rw [hwritten, weave_revisionFrame hcolor, ← escape_eq_self_iff]
  constructor
  · intro heq
    have hchars := congrArg String.toList heq
    simp only [String.toList_append, List.append_cancel_left_eq, List.append_cancel_right_eq,
      String.toList_inj] at hchars
    exact hchars.symm
  · intro heq
    rw [heq]

theorem markup_revisionPage_iff :
    markup (revisionPage task e time) = markup (String.join revisionFrame) ↔
      ∀ r, revision? task e = some r → '<' ∉ r.toList := by
  have hopens : ∀ s : List Char, '<' ∉ s ↔ ∀ c ∈ s, c ∉ ['<'] := by
    intro s
    simp only [List.mem_singleton]
    exact ⟨fun h c hc heq => h (heq ▸ hc), fun h hmem => h '<' hmem rfl⟩
  rw [revisionPage_eq, markup_weave_revision (escape_color _), hopens,
    forall_mem_message (List.forall_mem_singleton.mpr (by decide))]
  simp only [hopens]

/-! ## From a request to its page -/

namespace State

theorem direct_revision (hroute : Route.resolve c.info.method c.info.path = .ok .revisionColor) :
    s.direct now c = (s.wait c (.inquiry .revision), [.inquire c.number .revision]) := by
  unfold direct
  rw [hroute]
  rfl

theorem reveals_revisionPage (hended : s.hasEnded = false) (hcall : s.call? c.number = some c)
    (hwaiting : c.waiting = .inquiry .revision) :
    s.Reveals now c.number task (revisionPage task s.config.environment (wallClock now)) := by
  have hlearn : s.learn now c (.revision task) = s.answer now c
      (.ok (.page (revisionPage task s.config.environment (wallClock now)))) := by
    rw [learn, hwaiting]
    rfl
  rw [Reveals, handle, if_neg (Bool.eq_false_iff.mp hended), hcall]
  show (s.learn now c (.revision task)).answered = _
  rw [hlearn]
  exact (answerWith_frame _ _ _ _ _).1.1

/-- **REVISION PAGES SHARE THEIR MARKUP UNLESS A REVISION OPENS A TAG.**  A request for the page
    waits until the task has been asked, and is then answered with the page of what the task and
    the environment tell.  The revision stands in this page as it is: its marks are escaped
    exactly if it has none, and the page has the tags of its frame, whatever runs, exactly if the
    revision does not open one. -/
theorem revision_pages_share_markup_unless_tagged (task : TaskFinding) (e : Environment)
    (time : Moment) :
    (∀ (s : State) (now : Instant) (c : Call),
      Route.resolve c.info.method c.info.path = .ok .revisionColor →
        (s.direct now c).2 = [.inquire c.number .revision] ∧
          (s.direct now c).1.call? c.number = some { c with waiting := .inquiry .revision }) ∧
    (∀ (s : State) (now : Instant) (c : Call), s.hasEnded = false →
      s.call? c.number = some c → c.waiting = .inquiry .revision →
        s.Reveals now c.number task (revisionPage task s.config.environment (wallClock now))) ∧
    let page := revisionPage task e time
    let shown := revisionTexts (revision? task e)
    let texts := [shown.1, shown.2, time.precise]
    page = weave revisionFrame texts ∧
      (page = weave revisionFrame (texts.map escape) ↔
        ∀ r, revision? task e = some r → ∀ c ∈ r.toList, c ∉ ['&', '<', '>', '"', '\'']) ∧
      (markup page = markup (String.join revisionFrame) ↔
        ∀ r, revision? task e = some r → '<' ∉ r.toList) := by
  refine ⟨?_, fun s now c => reveals_revisionPage, ?_⟩
  · intro s now c hroute
    rw [direct_revision hroute]
    exact ⟨rfl, call?_wait⟩
  · intro page shown texts
    have hcolor := escape_color (revision? task e)
    have hpage : page = weave revisionFrame texts := revisionPage_eq task e time
    refine ⟨hpage, ?_, ?_⟩
    · rw [hpage, weave_escaped_iff hcolor]
      exact forall_mem_message fun _ h => h
    · exact markup_revisionPage_iff

/-- A call that waits for the revision that runs. -/
def revisionCall : Call :=
  { incoming 0 0 { method := "GET", target := ⟨none, "/metadata/revision_color", none⟩ } with
    waiting := .inquiry .revision }

/-- A service in a pod that has such a call. -/
def podService (environment : Environment) : State where
  config := { settings := ⟨.table []⟩, template := .ofString "", environment }
  words := ⟨fun _ => 0, 0⟩
  calls := [revisionCall]

/-- A task whose definition has a revision with a mark that opens no tag, beside a pod. -/
theorem revision_pages_share_markup_unless_tagged_ampersand :
    let e : Environment := [("POD_NAME", "web-7f8d>")]
    let arn : Value := .text "arn:aws:ecs:us-east-1:1234:task-definition/web:4&2"
    let task : TaskFinding := .ok (.object [("Revision", .text ""), ("TaskARN", arn)])
    revision? task e = some "4&2-7f8d>" ∧
      ∃ page, (podService e).Reveals 7 0 task page ∧
        markup page = markup (String.join revisionFrame) ∧
        page ≠ weave revisionFrame ([(revisionTexts (revision? task e)).1,
          (revisionTexts (revision? task e)).2, (wallClock 7).precise].map escape) := by
  intro e arn task
  obtain ⟨-, hreveals, -, hescaped, hmarkup⟩ :=
    revision_pages_share_markup_unless_tagged task e (wallClock 7)
  have hrevision : revision? task e = some "4&2-7f8d>" := rfl
  refine ⟨hrevision, _, hreveals (podService e) 7 revisionCall rfl rfl rfl, hmarkup.mpr ?_, ?_⟩
  · intro r hr
    obtain rfl := Option.some.inj (hrevision.symm.trans hr)
    decide
  · intro heq
    exact hescaped.mp heq _ hrevision '&' (by decide) (by decide)

/-- **A replica set brings a tag into the page.**  Named `<b>`, it makes the page one with
    another tag than the page where nothing is known. -/
theorem replica_set_opens_tag :
    let tagged : Environment := [("REPLICA_SET", "<b>")]
    let task : TaskFinding := .error "error sending request"
    let page (e : Environment) := revisionPage task e (wallClock 0)
    (podService tagged).Reveals 0 0 task (page tagged) ∧
      (podService []).Reveals 0 0 task (page []) ∧ markup (page tagged) ≠ markup (page []) := by
  intro tagged task page
  refine ⟨reveals_revisionPage (c := revisionCall) rfl rfl rfl,
    reveals_revisionPage (c := revisionCall) rfl rfl rfl, ?_⟩
  have hnone : revision? task [] = none := rfl
  have hplain : markup (page []) = markup (String.join revisionFrame) :=
    markup_revisionPage_iff.mpr fun r hr => nomatch hnone.symm.trans hr
  have hrevision : revision? task tagged = some "<b>" := rfl
  rw [hplain]
  exact fun heq => markup_revisionPage_iff.mp heq _ hrevision (by decide)

end State
end Havoc.Service
