import DocPages.Files.Disk
import DocPages.Main
import DocPages.Proofs.Comment.Styles
import DocPages.Proofs.Config.RoundTrip
import DocPages.Proofs.Declaration.AttributeTexts
import DocPages.Proofs.Declaration.Commented
import DocPages.Proofs.Declaration.Declarators
import DocPages.Proofs.Declaration.Insertions
import DocPages.Proofs.Declaration.Layout
import DocPages.Proofs.Declaration.PreOrder
import DocPages.Proofs.Declaration.Preface
import DocPages.Proofs.Declaration.Reported
import DocPages.Proofs.Declaration.RoundTrip
import DocPages.Proofs.Declaration.Sections
import DocPages.Proofs.Declaration.Skipped
import DocPages.Proofs.Declaration.Verbatim
import DocPages.Proofs.Markup.Faults
import DocPages.Proofs.Markup.Joining
import DocPages.Proofs.Markup.References
import DocPages.Proofs.Page.Groups
import DocPages.Proofs.Page.Links
import DocPages.Proofs.Plugin.Reclassification
import DocPages.Proofs.Plugin.Runs
import DocPages.Proofs.Plugin.Settings
import DocPages.Proofs.Project.Boundaries
import DocPages.Proofs.Project.FullNames
import DocPages.Proofs.Project.Identity
import DocPages.Proofs.Project.Nesting
import DocPages.Proofs.Project.ParsedFolder
import DocPages.Proofs.Prose.Fences
import DocPages.Proofs.Prose.Tables
import DocPages.Proofs.Site.Accounting
import DocPages.Proofs.Site.Completeness
import DocPages.Proofs.Site.Confinement
import DocPages.Proofs.Site.Isolation
