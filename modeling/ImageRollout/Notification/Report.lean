import ImageRollout.Notice
import ImageRollout.Notification.GitHub
import ImageRollout.Notification.Harbor
import ImageRollout.Text.Utf8

/-!
# Reports on notifications

What is to be said about a notification that announces no image.  Harbor notifies of everything, so
there only a malformed body is worth a word; a GitHub notification should announce an image.
-/

namespace ImageRollout.Notification

/-- What is to be reported about a body that does not read. -/
def ignoredBody (registry : String) (body : List UInt8) : Notice :=
  .bodyIgnored registry (Text.ofUtf8Lossy body) Refusal.malformed.message

/-- What is to be reported about a Harbor notification. -/
def Harbor.notice? (body : List UInt8) : Option Notice :=
  match Harbor.decode body with
  | .error .malformed => some (ignoredBody "harbor" body)
  | _ => none

namespace GitHub

/-- A package as messages show it. -/
def Package.description (p : Package) : String :=
  "Package \x7b name: " ++ Text.quoted p.name ++ ", package_type: " ++ Text.quoted p.kind ++
    ", package_version: PackageVersion \x7b version: " ++ Text.quoted p.version ++
    ", package_url: " ++ Text.quoted p.url ++ " \x7d \x7d"

/-- A package that may be missing, as messages show it. -/
def describe : Option Package → String
  | some p => "Some(" ++ p.description ++ ")"
  | none => "None"

/-- What is to be reported about a GitHub notification. -/
def notice? (body : List UInt8) : Option Notice :=
  match decode body with
  | .error .malformed => some (ignoredBody "github" body)
  | .error refusal => some (.notificationIgnored "github" refusal.message)
  | .ok package =>
    if (package.bind Package.push?).isNone then some (.packageIgnored (describe package)) else none

end GitHub

end ImageRollout.Notification
