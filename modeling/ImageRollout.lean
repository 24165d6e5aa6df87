import ImageRollout.Admission.Answer
import ImageRollout.Admission.Pinning
import ImageRollout.Admission.Request
import ImageRollout.Admission.Review
import ImageRollout.Bus
import ImageRollout.Bus.Trial
import ImageRollout.Cluster.Controller
import ImageRollout.Cluster.Informer
import ImageRollout.Cluster.Moment
import ImageRollout.Cluster.Object
import ImageRollout.Cluster.Observer
import ImageRollout.Cluster.Server
import ImageRollout.Cluster.Site
import ImageRollout.Cluster.World
import ImageRollout.Config.Basic
import ImageRollout.Config.Document
import ImageRollout.Config.Load
import ImageRollout.Config.Placeholder
import ImageRollout.ConfigMaps.Association
import ImageRollout.ConfigMaps.Restart
import ImageRollout.ConfigMaps.Versions
import ImageRollout.Controllers.Fleet
import ImageRollout.Controllers.Registry
import ImageRollout.Controllers.Script
import ImageRollout.Controllers.Team
import ImageRollout.Http.Handling
import ImageRollout.Http.Service
import ImageRollout.Http.Status
import ImageRollout.Image.Push
import ImageRollout.Image.PushJson
import ImageRollout.Image.Reference
import ImageRollout.Json.Basic
import ImageRollout.Json.Kept
import ImageRollout.Json.Printer
import ImageRollout.Json.Reader
import ImageRollout.Json.Record
import ImageRollout.Json.Token
import ImageRollout.Kubernetes.ConfigMap
import ImageRollout.Kubernetes.Deployment
import ImageRollout.Kubernetes.Field
import ImageRollout.Kubernetes.Job
import ImageRollout.Kubernetes.Metadata
import ImageRollout.Kubernetes.Pod
import ImageRollout.Kubernetes.Shape
import ImageRollout.Kubernetes.Shapes.Container
import ImageRollout.Kubernetes.Shapes.Metadata
import ImageRollout.Kubernetes.Shapes.Pod
import ImageRollout.Kubernetes.Shapes.Volume
import ImageRollout.Kubernetes.Shapes.Workload
import ImageRollout.Main
import ImageRollout.Namespaces.Tracker
import ImageRollout.Notice
import ImageRollout.Notification.Basic
import ImageRollout.Notification.GitHub
import ImageRollout.Notification.Harbor
import ImageRollout.Notification.Report
import ImageRollout.Proofs.Admission.Allowance
import ImageRollout.Proofs.Admission.Pinning
import ImageRollout.Proofs.Admission.Repinning
import ImageRollout.Proofs.Admission.Submission
import ImageRollout.Proofs.Bus.Delivery
import ImageRollout.Proofs.Bus.Moves
import ImageRollout.Proofs.Bus.Progress
import ImageRollout.Proofs.Bus.Session
import ImageRollout.Proofs.Cluster.Convergence
import ImageRollout.Proofs.Cluster.FirstLists
import ImageRollout.Proofs.Cluster.Images
import ImageRollout.Proofs.Cluster.Informers
import ImageRollout.Proofs.Cluster.Requests
import ImageRollout.Proofs.Config.Expansion
import ImageRollout.Proofs.Config.Validation
import ImageRollout.Proofs.ConfigMaps.History
import ImageRollout.Proofs.ConfigMaps.Restarts
import ImageRollout.Proofs.ConfigMaps.Service
import ImageRollout.Proofs.ConfigMaps.Targets
import ImageRollout.Proofs.Fleet.Acts
import ImageRollout.Proofs.Fleet.Chronicle
import ImageRollout.Proofs.Fleet.Failures
import ImageRollout.Proofs.Fleet.Interleaving
import ImageRollout.Proofs.Fleet.Linearization
import ImageRollout.Proofs.Fleet.Occasions
import ImageRollout.Proofs.Fleet.Oversight
import ImageRollout.Proofs.Fleet.Passage
import ImageRollout.Proofs.Fleet.Recipients
import ImageRollout.Proofs.Fleet.Relist
import ImageRollout.Proofs.Fleet.Starts
import ImageRollout.Proofs.Fleet.Survivors
import ImageRollout.Proofs.Fleet.Transition
import ImageRollout.Proofs.Fleet.Turns
import ImageRollout.Proofs.Http.Exchanges
import ImageRollout.Proofs.Image.Agreement
import ImageRollout.Proofs.Image.Canonical
import ImageRollout.Proofs.Image.Printing
import ImageRollout.Proofs.Image.Reading
import ImageRollout.Proofs.Json.Patch
import ImageRollout.Proofs.Json.Paths
import ImageRollout.Proofs.Kubernetes.Reading
import ImageRollout.Proofs.Kubernetes.Rereading
import ImageRollout.Proofs.Namespaces.Knowledge
import ImageRollout.Proofs.Notification.Announcement
import ImageRollout.Proofs.Rerun.Copies
import ImageRollout.Proofs.Rerun.Custody
import ImageRollout.Proofs.Rerun.Desk
import ImageRollout.Proofs.Rerun.Listings
import ImageRollout.Proofs.Rerun.Progress
import ImageRollout.Proofs.Rerun.Service
import ImageRollout.Proofs.Rerun.Story
import ImageRollout.Proofs.Rerun.Threads
import ImageRollout.Proofs.Rerun.Turns
import ImageRollout.Proofs.Rollout.Belated
import ImageRollout.Proofs.Rollout.ByName
import ImageRollout.Proofs.Rollout.Documents
import ImageRollout.Proofs.Rollout.Effect
import ImageRollout.Proofs.Rollout.Matching
import ImageRollout.Proofs.Rollout.Merge
import ImageRollout.Proofs.Rollout.Service
import ImageRollout.Proofs.Rollout.Settled
import ImageRollout.Proofs.Rollout.Writes
import ImageRollout.Proofs.Sequences
import ImageRollout.Proofs.Startup.Assembly
import ImageRollout.Proofs.Startup.Listing
import ImageRollout.Proofs.TagSource.Addresses
import ImageRollout.Proofs.TagSource.Newest
import ImageRollout.Proofs.Text.Percent
import ImageRollout.Proofs.Text.Replacing
import ImageRollout.Proofs.Text.Utf8
import ImageRollout.Proofs.Watch.Lockstep
import ImageRollout.Proofs.Watch.Presence
import ImageRollout.Rerun.Claims
import ImageRollout.Rerun.Copy
import ImageRollout.Rerun.Decision
import ImageRollout.Rerun.Task
import ImageRollout.Rollout.Patch
import ImageRollout.Rollout.Plan
import ImageRollout.Startup
import ImageRollout.Table
import ImageRollout.TagSource.Address
import ImageRollout.TagSource.Artifact
import ImageRollout.TagSource.Basic
import ImageRollout.TagSource.Options
import ImageRollout.TagSource.Path
import ImageRollout.Text.Blank
import ImageRollout.Text.Names
import ImageRollout.Text.Percent
import ImageRollout.Text.Quoted
import ImageRollout.Text.Split
import ImageRollout.Text.Unprintable
import ImageRollout.Text.Utf8
import ImageRollout.Time.Calendar
import ImageRollout.Time.Instant
import ImageRollout.Time.Reader
import ImageRollout.Watch.Cache
import ImageRollout.Watch.Event
import ImageRollout.Yaml.Node
import ImageRollout.Yaml.Token
import ImageRollout.Yaml.Token.Block
import ImageRollout.Yaml.Token.Cursor
import ImageRollout.Yaml.Token.Flow
import ImageRollout.Yaml.Token.Scan
