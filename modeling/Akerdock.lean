import Akerdock.Deploy.SwitchFailure
import Akerdock.Deploy.SwitchRecovery
import Akerdock.Deploy.Barrier
import Akerdock.Deploy.Uptime
import Akerdock.Queue.Cancel
import Akerdock.Queue.Exclusion
import Akerdock.Queue.Drain
import Akerdock.Rollback.Artifacts
import Akerdock.Variables.Render
import Akerdock.Proxy.Reading
import Akerdock.Proxy.Apply
import Akerdock.Compose.Previews
import Akerdock.Agent.Runs
import Akerdock.HttpApi.Idempotency
import Akerdock.HttpApi.RealIP
import Akerdock.Queue.Keys
import Akerdock.Teams.Elevation
import Akerdock.Queue.Cleanup
import Akerdock.Tasks.Backing
import Akerdock.Notify.Deliveries
import Akerdock.Events.Gaps
import Akerdock.Sessions.Attach
import Akerdock.Sessions.Presence
import Akerdock.Tunnel.Kill
import Akerdock.Agent.Commands
import Akerdock.Tunnel.Occupancy
import Akerdock.Compose.ContainerNames
import Akerdock.Agent.Ingress
import Akerdock.Cron.Progress
import Akerdock.Secrets.Convergence
import Akerdock.Agent.Provision
import Akerdock.Cron.Days
import Akerdock.Agent.Readers
import Akerdock.Agent.Verify
import Akerdock.Backups.Retention
import Akerdock.Backups.Signature
import Akerdock.Teams.Delegation
