import WorkAgent.Quota.Replay
import WorkAgent.Quota.Conservation
import WorkAgent.Harness.SharedTurnOnce
import WorkAgent.Harness.ConversationJournal
import WorkAgent.Collaboration.Doors
import WorkAgent.Collaboration.LinkUses
import WorkAgent.Collaboration.Windows
import WorkAgent.Portal.TaskLifecycle
import WorkAgent.Harness.AutomationOnce
import WorkAgent.Harness.AutomationClaims
import WorkAgent.Harness.UploadIndex
import WorkAgent.Harness.ApprovalOnce
import WorkAgent.Harness.NotificationOnce
import WorkAgent.Harness.FileIdentities
import WorkAgent.ImGateway.Pairings
import WorkAgent.ChatForward.Sends
import WorkAgent.PublishedApps.Access
import WorkAgent.Lifecycle.Consistency
import WorkAgent.Harness.SessionOperations
import WorkAgent.Transfers.Agreement
import WorkAgent.Operations.Activations
import WorkAgent.Accounts.Revocation
import WorkAgent.SharedEvents.Lossless
import WorkAgent.AppRunner.Laws
import WorkAgent.SkillRuntime.Catalog
import WorkAgent.McpOAuth.Laws
import WorkAgent.Harness.PersonalSettlements
import WorkAgent.Quota.AcpUsage
import WorkAgent.Quota.Periods
import WorkAgent.Harness.WeeklySchedules
import WorkAgent.Teams.Recovery
import WorkAgent.Harness.NotificationParts
import WorkAgent.SharedTrash.Pruning
import WorkAgent.Harness.JsonlRpc
import WorkAgent.Harness.SessionForks
import WorkAgent.Harness.EventReplay
import WorkAgent.Collaboration.Visibility
import WorkAgent.McpRuntime.Reconciliation
import WorkAgent.Accounts.LoginThrottle
import WorkAgent.ModelGateway.UsageDrain
import WorkAgent.Wiki.Leases
import WorkAgent.ImGateway.WeixinPolls
import WorkAgent.Wiki.Preimages
import WorkAgent.Wiki.ManifestDrift
import WorkAgent.PublishedApps.Updates
import WorkAgent.Teams.DependencyChecks
